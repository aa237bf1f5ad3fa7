import JsonSql.Proofs.Attempts
import JsonSql.Proofs.Projections
import JsonSql.Proofs.Provenance

set_option autoImplicit false

/-!
# Settled paths

Joining along a path adds joins and takes nothing back, so a path that was joined is settled
(`joinFrom_settled`), and its column stays as it is (`Context.column_keeps`).  Where the column does
not count related rows, it does not depend on the aliases issued before either
(`Context.column_settled`).  So wherever a path stands in a request, in its ordering, its groups, its
aggregations or the leaves of its filter, it is read by one expression (`paths_settled`).
-/

namespace JsonSql

open JsonSql.Sql

/-! ## Columns -/

namespace Context

variable {c : Context} {collection : String} {hops hops' : Hops} {path : List String}
  {column : Column} {k k' : Nat}

/-- The last segment of a path asks for the number of related rows. -/
def CountsRows (c : Context) (collection : String) (path : List String) : Prop :=
  ∃ last function owner f, path.getLast? = some last ∧
    (splitFunction last).1 = some function ∧ FieldFunction.ofName? function = some .count ∧
    c.reach? collection path.dropLast = some owner ∧
    c.provider.field owner (splitFunction last).2 = .ok (some f) ∧ f.type ≠ .json

theorem placeOf_keeps {parents : List String} {shown : String} {place : Place}
    (hkeeps : Keeps hops hops') (h : placeOf hops collection parents shown = .ok place) :
    placeOf hops' collection parents shown = .ok place := by
  rcases placeOf_eq_ok h with ⟨hroot, rfl⟩ | ⟨hparents, hop, hfound, rfl⟩
  · rw [placeOf, if_pos hroot]
  · rw [placeOf, if_neg hparents, hkeeps _ _ hfound]

/-- Joins that are recorded later do not change a column. -/
theorem column_keeps (hkeeps : Keeps hops hops')
    (h : (c.column hops collection path).Gives k column k') :
    (c.column hops' collection path).Gives k column k' := by
  unfold Context.column at h ⊢
  cases hlast : path.getLast? with
  | none =>
    rw [hlast] at h
    exact absurd h Compile.not_gives_throw
  | some last =>
    rw [hlast] at h
    simp only [Compile.gives_bind, Compile.gives_lift] at h ⊢
    obtain ⟨place, k₁, ⟨hplace, rfl⟩, hrest⟩ := h
    exact ⟨place, k₁, ⟨placeOf_keeps hkeeps hplace, rfl⟩, hrest⟩

/-- A function that does not count related rows takes no alias. -/
theorem applyFunction_settled {place : Place} {function shown field : String} {type : FieldType}
    {e : Expr} (hplain : FieldFunction.ofName? function = some .count → type = .json)
    (h : (c.applyFunction place function shown field type).Gives k e k') (j : Nat) :
    (c.applyFunction place function shown field type).Gives j e j := by
  unfold applyFunction at h ⊢
  dsimp only at h ⊢
  split at h
  · exact absurd h Compile.not_gives_throw
  · next part hname =>
    split at h
    · obtain ⟨rfl, -⟩ := Compile.gives_pure.mp h
      exact Compile.gives_pure.mpr ⟨rfl, rfl⟩
    · exact absurd h Compile.not_gives_throw
  · next hname =>
    rw [if_pos (hplain hname)] at h ⊢
    exact Compile.gives_lift.mpr ⟨(Compile.gives_lift.mp h).1, rfl⟩

/-- A column that does not count related rows does not depend on the aliases issued before. -/
theorem column_settled (hcharted : hops.Charted c collection) (hpath : IsPath path)
    (hplain : ¬c.CountsRows collection path)
    (h : (c.column hops collection path).Gives k column k') (j : Nat) :
    (c.column hops collection path).Gives j column j := by
  unfold Context.column at h ⊢
  cases hlast : path.getLast? with
  | none =>
    rw [hlast] at h
    exact absurd h Compile.not_gives_throw
  | some last =>
    rw [hlast] at h
    simp only [Compile.gives_bind, Compile.gives_lift, field_gives] at h ⊢
    obtain ⟨place, k₁, ⟨hplace, rfl⟩, f, k₂, ⟨hfield, rfl⟩, hrest⟩ := h
    refine ⟨place, j, ⟨hplace, rfl⟩, f, j, ⟨hfield, rfl⟩, ?_⟩
    split
    · next hnone =>
      rw [hnone] at hrest
      dsimp only at hrest
      split at hrest
      · simp at hrest
      · next hreal =>
        rw [if_neg hreal]
        simp only [Compile.gives_pure] at hrest ⊢
        exact ⟨hrest.1, trivial⟩
    · next function hsome =>
      rw [hsome] at hrest
      simp only [Compile.gives_bind, Compile.gives_pure] at hrest ⊢
      obtain ⟨e, k₃, he, hcolumn, -⟩ := hrest
      refine ⟨e, j, applyFunction_settled (fun hcount => ?_) he j, hcolumn, rfl⟩
      by_contra hrows
      have hparents : IsPath path.dropLast :=
        fun segment hsegment => hpath segment ((List.dropLast_prefix path).subset hsegment)
      exact hplain ⟨last, function, place.collection, f, hlast, hsome, hcount,
        hcharted.reach? hparents (Hops.place?_of_placeOf hplace), hfield, hrows⟩

/-- An expression is that of the column of a path, whose parents are joined already. -/
def ReadsAs (c : Context) (hops : Hops) (collection : String) (path : List String) (e : Expr) :
    Prop :=
  ∃ k column k', (c.column hops collection path).Gives k column k' ∧ column.expr = e

theorem ReadsAs.mono {e : Expr} (hkeeps : Keeps hops hops')
    (h : c.ReadsAs hops collection path e) : c.ReadsAs hops' collection path e := by
  obtain ⟨k, column, k', hcolumn, he⟩ := h
  exact ⟨k, column, k', column_keeps hkeeps hcolumn, he⟩

end Context

/-! ## What is read -/

/-- The direction of a sort entry: descending with a minus in front. -/
def sortDirection (entry : String) : Direction :=
  if (Text.after? "-" entry).isSome then .desc else .asc

theorem direction_of_sortKey {entry key : String} {direction : Direction}
    (h : Context.sortKey entry = .ok (direction, key)) : direction = sortDirection entry := by
  unfold Context.sortKey at h
  unfold sortDirection
  cases hminus : Text.after? "-" entry with
  | none | some rest =>
    rw [hminus] at h
    dsimp only at h
    split at h
    · cases h
    · cases h
      rfl

/-- A leaf that compares a field is about an expression that stands for its path. -/
def Leaf.ReadBy (c : Context) (R : List String → Expr → Prop) : Leaf → List Expr → Prop
  | .compared parents key comparisons, predicates => ∃ column e?,
    R (parents ++ [Text.trim key]) column.expr ∧ c.compareAll? column comparisons = .ok e? ∧
      predicates = e?.toList.flatMap Expr.predicates
  | .related _ _ _ _, _ => True

/-- The projections of an entry of an aggregate are of expressions that stand for its fields, apart
from counts of whole rows. -/
def Aggregation.ReadBy (R : List String → Expr → Prop) (entry : Aggregation × List String)
    (items : List Item) : Prop :=
  entry.1 = countAll ∧ items.map Item.expr = [.countRows] ∨
    List.Forall₂ (fun field item => field = "*" ∧ item.expr.selects = [] ∨
      ∃ e, R (fieldPath field) e ∧ item.expr = entry.1.apply e) entry.2 items

/-- Wherever a request names a path outside its filter, an expression that stands for the path is in
the statement: in its ordering, its groups and their projections, and its aggregations.  Projections
of another kind come before them. -/
structure Sql.Query.ReadsBy (R : List String → Expr → Prop) (base : List Item) (r : Request)
    (q : Query) : Prop where
  orders : List.Forall₂ (fun entry o => o.direction = sortDirection entry ∧
    R (sortPath entry) o.expr) r.sort q.orders
  groups : List.Forall₂ (fun key e => R (fieldPath key) e) r.group q.groups
  items : ∃ grouped summed, q.items = base ++ grouped ++ summed.flatten ∧
    grouped = List.zipWith (fun key e => ⟨e, some key⟩) r.group q.groups ∧
    List.Forall₂ (Aggregation.ReadBy R) r.aggregate summed

/-- The condition of a statement asks of its search, which holds no statement, and then of the leaves
of the filter. -/
def Sql.Query.AsksBy (c : Context) (collection : String) (R : List String → Expr → Prop)
    (r : Request) (q : Query) : Prop :=
  ∃ searched asked, q.condition.toList.flatMap Expr.predicates = searched ++ asked.flatten ∧
    searched.flatMap Expr.selects = [] ∧
    List.Forall₂ (Leaf.ReadBy c R) (c.requestLeaves collection r) asked

section Reading

variable {c : Context} {collection : String} {R R' : List String → Expr → Prop} {base : List Item}
  {r : Request} {q : Query}

theorem Leaf.ReadBy.mono {leaf : Leaf} {predicates : List Expr} (hR : ∀ path e, R path e → R' path e)
    (h : leaf.ReadBy c R predicates) : leaf.ReadBy c R' predicates := by
  cases leaf with
  | compared parents key comparisons =>
    obtain ⟨column, e?, hcolumn, hall⟩ := h
    exact ⟨column, e?, hR _ _ hcolumn, hall⟩
  | related parents key quantifier f => trivial

theorem Aggregation.ReadBy.mono {entry : Aggregation × List String} {items : List Item}
    (hR : ∀ path e, R path e → R' path e) (h : ReadBy R entry items) : ReadBy R' entry items := by
  refine h.imp id fun hfields => hfields.imp fun field item hitem => ?_
  exact hitem.imp id fun ⟨e, he, hexpr⟩ => ⟨e, hR _ _ he, hexpr⟩

theorem Sql.Query.ReadsBy.mono (hR : ∀ path e, R path e → R' path e)
    (h : q.ReadsBy R base r) : q.ReadsBy R' base r := by
  obtain ⟨grouped, summed, hitems, hgrouped, hsummed⟩ := h.items
  exact ⟨h.orders.imp fun _ _ ho => ⟨ho.1, hR _ _ ho.2⟩, h.groups.imp fun _ _ => hR _ _,
    ⟨grouped, summed, hitems, hgrouped, hsummed.imp fun _ _ => Aggregation.ReadBy.mono hR⟩⟩

theorem Sql.Query.AsksBy.mono (hR : ∀ path e, R path e → R' path e)
    (h : q.AsksBy c collection R r) : q.AsksBy c collection R' r := by
  obtain ⟨searched, asked, hcondition, hsearched, hasked⟩ := h
  exact ⟨searched, asked, hcondition, hsearched, hasked.imp fun _ _ => Leaf.ReadBy.mono hR⟩

end Reading

/-! ## Requests -/

/-- A statement whose joins match the prefixes of the paths that are walked so far and lead where
these do, and in which the columns of the paths stand.  The conditions of the leaves of a filter were
built on a record that is kept. -/
structure Scope.Reads (c : Context) (collection : String) (base : List Item)
    (paths : List (List String)) (r : Request) (scope : Scope) : Prop where
  charted : scope.hops.Charted c collection
  joins : c.JoinsAlong false collection paths scope
  reads : scope.query.ReadsBy
    (fun path e => IsPath path ∧ c.ReadsAs scope.hops collection path e) base r
  asks : ∃ searched filtered hops k k',
    scope.query.condition.toList.flatMap Expr.predicates = searched ++ filtered ∧
      searched.flatMap Expr.selects = [] ∧ Context.Keeps hops scope.hops ∧
      c.LeavesGive hops collection (c.requestLeaves collection r) k filtered k'

namespace Scope.Reads

variable {c : Context} {collection : String} {base : List Item} {paths : List (List String)}
  {r : Request} {scope scope' : Scope} {k k' : Nat}

theorem start {q : Query} (hjoins : q.joins = []) (hcondition : q.condition = none)
    (hgroups : q.groups = []) (horders : q.orders = []) :
    Reads c collection q.items [] {} { query := q } := by
  refine ⟨.empty, Context.joinsAlong_nil hjoins, ⟨?_, ?_, ⟨[], [], by simp, rfl, .nil⟩⟩,
    [], [], {}, 0, 0, ?_, rfl, fun _ _ hfound => hfound, Context.leavesGive_nil 0⟩
  · rw [horders]
    exact .nil
  · rw [hgroups]
    exact .nil
  · rw [hcondition]
    rfl

/-- Before there is a filter, no condition comes from one. -/
theorem searched_of_none (h : Reads c collection base paths r scope) (hfilter : r.filter = none) :
    (scope.query.condition.toList.flatMap Expr.predicates).flatMap Expr.selects = [] := by
  obtain ⟨searched, filtered, hops, k, k', hcondition, hsearched, -, hleaves⟩ := h.asks
  rw [Context.requestLeaves, hfilter] at hleaves
  obtain ⟨parts, hparts, rfl⟩ := hleaves
  rw [Option.toList_none, List.flatMap_nil, List.mapM_nil, Compile.gives_pure] at hparts
  obtain ⟨rfl, -⟩ := hparts
  rw [hcondition, List.flatMap_append, hsearched]
  rfl

/-- More joins leave what is read as it is. -/
theorem join {more : List (List String)} (h : Reads c collection base paths r scope)
    (hsame : Context.sameButJoins scope.query scope'.query)
    (hkeeps : Context.Keeps scope.hops scope'.hops)
    (hcharted : scope'.hops.Charted c collection)
    (hjoins : c.JoinsAlong false collection more scope') :
    Reads c collection base more r scope' := by
  obtain ⟨query, hops⟩ := scope'
  rw [Context.sameButJoins] at hsame
  dsimp only at hsame
  generalize query.joins = joins at hsame
  subst hsame
  obtain ⟨horders, hgroups, hitems⟩ := h.reads.mono fun _ _ hread =>
    And.intro hread.1 (hread.2.mono hkeeps)
  obtain ⟨searched, filtered, before, j, j', hcondition, hsearched, hbefore, hleaves⟩ := h.asks
  exact ⟨hcharted, hjoins, ⟨horders, hgroups, hitems⟩, searched, filtered, before, j, j',
    hcondition, hsearched, fun path hop hfound => hkeeps _ _ (hbefore _ _ hfound), hleaves⟩

theorem joinPath {several : Bool} {path : List String} (hpath : IsPath path)
    (h : Reads c collection base paths r scope)
    (hjoin : (c.joinPath false collection scope path).Gives k (scope', several) k') :
    Reads c collection base (paths ++ [path]) r scope' :=
  h.join (Context.sameButJoins_of_joinPath hjoin (Context.sameButJoins_refl _))
    (Context.keeps_of_joinPath hjoin) (h.charted.joinPath hpath hjoin)
    (Context.joinsAlong_joinPath hpath h.joins hjoin)

theorem joinedColumn {key : String} {column : Column} (h : Reads c collection base paths r scope)
    (hjoined : (c.joinedColumn collection scope key).Gives k (scope', column) k') :
    Reads c collection base (paths ++ [fieldPath key]) r scope' ∧
      c.ReadsAs scope'.hops collection (fieldPath key) column.expr := by
  simp only [Context.joinedColumn, Compile.gives_bind, Compile.gives_pure] at hjoined
  obtain ⟨⟨scope₁, several⟩, k₁, hjoin, found, k₂, hcolumn, hresult, rfl⟩ := hjoined
  cases hresult
  exact ⟨h.joinPath (isPath_fieldPath key) hjoin, k₁, column, k', hcolumn, rfl⟩

/-- An ordering is by the column of its path. -/
theorem sortBy {entry : String} (h : Reads c collection base paths r scope)
    (hsort : (c.sortBy collection scope entry).Gives k scope' k') :
    Reads c collection base (paths ++ [sortPath entry])
      { r with sort := r.sort ++ [entry] } scope' := by
  simp only [Context.sortBy, Compile.gives_bind, Compile.gives_lift, Compile.gives_pure] at hsort
  obtain ⟨⟨direction, key⟩, k₁, ⟨hkey, rfl⟩, ⟨scope₁, column⟩, k₂, hjoined, rfl, rfl⟩ := hsort
  obtain ⟨⟨hcharted, hjoins, hreads, hasks⟩, hcolumn⟩ := h.joinedColumn hjoined
  rw [fieldPath_of_sortKey hkey] at hcolumn hjoins
  have hread : IsPath (sortPath entry) ∧
      c.ReadsAs scope₁.hops collection (sortPath entry) column.expr :=
    ⟨isPath_fieldPath _, hcolumn⟩
  exact ⟨hcharted, hjoins,
    ⟨List.rel_append hreads.orders (.cons ⟨direction_of_sortKey hkey, hread⟩ .nil),
      hreads.groups, hreads.items⟩, hasks⟩

/-- A group is the column of its path, and is projected under its key. -/
theorem groupBy {key : String} (h : Reads c collection base paths r scope)
    (haggregate : r.aggregate = [])
    (hgroup : (c.groupBy collection scope key).Gives k scope' k') :
    Reads c collection base (paths ++ [fieldPath key])
      { r with group := r.group ++ [key] } scope' := by
  simp only [Context.groupBy, Compile.gives_bind, Compile.gives_pure] at hgroup
  obtain ⟨⟨scope₁, column⟩, k₁, hjoined, rfl, rfl⟩ := hgroup
  obtain ⟨⟨hcharted, hjoins, hreads, hasks⟩, hcolumn⟩ := h.joinedColumn hjoined
  have hread : IsPath (fieldPath key) ∧
      c.ReadsAs scope₁.hops collection (fieldPath key) column.expr :=
    ⟨isPath_fieldPath key, hcolumn⟩
  obtain ⟨grouped, summed, hitems, hgrouped, hsummed⟩ := hreads.items
  rw [haggregate, List.forall₂_nil_left_iff] at hsummed
  rw [hsummed, List.flatten_nil, List.append_nil] at hitems
  refine ⟨hcharted, hjoins, ⟨hreads.orders, List.rel_append hreads.groups (.cons hread .nil),
    ⟨grouped ++ [⟨column.expr, some key⟩], [], ?_, ?_, haggregate ▸ .nil⟩⟩, hasks⟩
  · rw [List.flatten_nil, List.append_nil, ← List.append_assoc, ← hitems]
    rfl
  · have hnext : List.zipWith (fun key e => (⟨e, some key⟩ : Item)) [key] [column.expr] =
        [⟨column.expr, some key⟩] := rfl
    rw [hgrouped, ← hnext]
    exact (List.zipWith_append hreads.groups.length_eq).symm

/-- A search adds a condition that holds no statement. -/
theorem search {term : String} {q : Query} (h : Reads c collection base paths r scope)
    (hfilter : r.filter = none) (hsearch : (c.search collection scope.query term).Gives k q k') :
    Reads c collection base paths r { scope with query := q } := by
  have hbefore := h.searched_of_none hfilter
  simp only [Context.search, Compile.gives_bind, Context.ask_gives, Compile.gives_pure] at hsearch
  obtain ⟨fields, k₁, ⟨-, rfl⟩, rfl, rfl⟩ := hsearch
  have hleaves : c.requestLeaves collection r = [] := by rw [Context.requestLeaves, hfilter]; rfl
  obtain ⟨hcharted, hjoins, hreads, -⟩ := h
  refine ⟨hcharted, hjoins, ⟨hreads.orders, hreads.groups, hreads.items⟩, _, [], {}, 0, 0,
    (List.append_nil _).symm, ?_, fun _ _ hfound => (by cases hfound), ?_⟩
  · rw [predicates_addCondition, List.flatMap_append, hbefore, List.nil_append,
      List.flatMap_eq_nil_iff]
    intro e he
    rcases predicates_searchCondition he with rfl | ⟨f, -, -, hpredicate⟩
    · simp [Expr.equals, Expr.int, Expr.selects]
    · rw [hpredicate.selects, selects_of]
  · rw [hleaves]
    exact Context.leavesGive_nil 0

/-- A filter joins its paths, and asks its leaves. -/
theorem restrict {f : Filter} {several : Bool} (h : Reads c collection base paths r scope)
    (hfilter : r.filter = none)
    (hrestrict : (c.restrict false collection scope f).Gives k (scope', several) k') :
    Reads c collection base (paths ++ c.filterPaths collection [] f.unfolded)
      { r with filter := some f } scope' := by
  obtain ⟨scope₁, k₁, e?, hjoin, he, hhops, hquery⟩ :=
    Context.addFilter_gives (Context.addFilter_of_restrict hrestrict)
  have hunfolded := isUnfolded_unfolded f
  have hpaths : ∀ path ∈ c.filterPaths collection [] f.unfolded, IsPath path :=
    Context.isPath_of_mem_filterPaths isPath_nil hunfolded
  have hcharted : scope₁.hops.Charted c collection :=
    Context.joinFilter_keeps (P := fun s _ => s.hops.Charted c collection)
      (fun hpath hbefore => hbefore.joinStep (hpaths _ hpath)) h.charted hjoin
  have hjoined : Reads c collection base (paths ++ c.filterPaths collection [] f.unfolded) r
      scope₁ := by
    refine h.join (Context.sameButJoins_of_joinFilter hjoin (Context.sameButJoins_refl _))
      (Context.keeps_of_joinFilter hjoin) hcharted ?_
    rw [Context.joinFilter_eq] at hjoin
    exact Context.joinsAlong_joinPaths hpaths h.joins hjoin
  have hsearched := hjoined.searched_of_none hfilter
  have hleaves : c.requestLeaves collection { r with filter := some f } =
      c.leaves collection [] f.unfolded := List.flatMap_singleton _ _
  obtain ⟨-, hjoins, hreads, -⟩ := hjoined
  obtain ⟨query, hops⟩ := scope'
  obtain rfl : hops = scope₁.hops := hhops
  dsimp only at hquery
  have hgive := Context.leavesGive_condition? [] f.unfolded he
  rw [← hleaves] at hgive
  cases e? with
  | none =>
    obtain rfl : query = scope₁.query := hquery
    exact ⟨hcharted, hjoins, ⟨hreads.orders, hreads.groups, hreads.items⟩, _, _, scope₁.hops, k₁,
      k', (List.append_nil _).symm, hsearched, fun _ _ hfound => hfound, hgive⟩
  | some e =>
    obtain rfl : query = scope₁.query.addCondition e := hquery
    refine ⟨hcharted, hjoins, ⟨hreads.orders, hreads.groups, hreads.items⟩, _, _, scope₁.hops, k₁,
      k', predicates_addCondition _ _, hsearched, fun _ _ hfound => hfound, ?_⟩
    rw [Option.toList_some, List.flatMap_singleton] at hgive
    exact hgive

theorem aggregateItems {info : CollectionInfo} {entry : Aggregation × List String}
    {items : List Item} (h : (c.aggregateItems info scope entry).Gives k items k') :
    Aggregation.ReadBy (fun path e => IsPath path ∧ c.ReadsAs scope.hops info.name path e)
      entry items := by
  obtain ⟨aggregation, fields⟩ := entry
  unfold Context.aggregateItems at h
  dsimp only at h
  split at h
  · next hall =>
    obtain ⟨rfl, -⟩ := Compile.gives_pure.mp h
    exact .inl ⟨hall, rfl⟩
  · refine .inr (Compile.mapM_builds (P := fun done results _ => List.Forall₂ (fun field item =>
      field = "*" ∧ item.expr.selects = [] ∨ ∃ e, (IsPath (fieldPath field) ∧
        c.ReadsAs scope.hops info.name (fieldPath field) e) ∧ item.expr = aggregation.apply e)
      done results) (fun {done results field j item j'} hdone hitem => ?_) .nil h)
    simp only [Compile.gives_bind, Compile.gives_pure] at hitem
    obtain ⟨e, j₁, he, rfl, -⟩ := hitem
    refine List.rel_append hdone (.cons ?_ .nil)
    unfold Context.aggregateExpr at he
    split at he
    · next hrows =>
      split at he
      · obtain ⟨rfl, -⟩ := Compile.gives_pure.mp he
        refine .inl ⟨hrows, ?_⟩
        split
        · simp [Expr.countDistinct, Expr.of, Expr.selects, exprsSelects]
        · simp [Expr.countRows, Expr.count, Expr.apply, Expr.selects, exprsSelects]
      · exact absurd he Compile.not_gives_throw
    · simp only [Compile.gives_bind, Compile.gives_pure] at he
      obtain ⟨column, j₂, hcolumn, rfl, -⟩ := he
      exact .inr ⟨column.expr, ⟨isPath_fieldPath field, j, column, j₂, hcolumn, rfl⟩, rfl⟩

/-- Aggregations are projected after what is projected already. -/
theorem addAggregate {info : CollectionInfo} {aggregate : List (Aggregation × List String)}
    (h : Reads c info.name base paths r scope) (hnone : r.aggregate = [])
    (hadd : (c.addAggregate info scope aggregate).Gives k scope' k') :
    Reads c info.name base (paths ++ (aggregate.flatMap Prod.snd).map fieldPath)
      { r with aggregate } scope' := by
  simp only [Context.addAggregate, Compile.gives_bind, Compile.gives_pure] at hadd
  obtain ⟨scope₁, k₁, hjoin, items, k₂, hitems, rfl, rfl⟩ := hadd
  obtain ⟨hcharted, hjoins, hreads, hasks⟩ : Reads c info.name base
      (paths ++ (aggregate.flatMap Prod.snd).map fieldPath) r scope₁ := by
    refine Compile.foldlM_builds
      (P := fun done s _ => Reads c info.name base (paths ++ done.map fieldPath) r s)
      (fun {done s field j s' j'} hs hstep => ?_) ?_ hjoin
    · obtain ⟨⟨s₁, several⟩, hpath, rfl⟩ := Compile.gives_map.mp hstep
      rw [List.map_append, List.map_singleton, ← List.append_assoc]
      exact hs.joinPath (isPath_fieldPath field) hpath
    · rw [List.map_nil, List.append_nil]
      exact h
  have hsummed := Compile.mapM_builds (P := fun done results _ => List.Forall₂
    (Aggregation.ReadBy fun path e => IsPath path ∧ c.ReadsAs scope₁.hops info.name path e)
    done results) (fun hdone hentry => List.rel_append hdone (.cons (aggregateItems hentry) .nil))
    .nil hitems
  obtain ⟨grouped, summed, hbefore, hgrouped, hnothing⟩ := hreads.items
  rw [hnone, List.forall₂_nil_left_iff] at hnothing
  rw [hnothing, List.flatten_nil, List.append_nil] at hbefore
  rw [Context.foldl_addItem]
  exact ⟨hcharted, hjoins, ⟨hreads.orders, hreads.groups,
    ⟨grouped, items, by rw [hbefore], hgrouped, hsummed⟩⟩, hasks⟩

/-- What is read depends on these parts of a request only. -/
theorem ofRequest {sort group : List String} {filter : Option Filter}
    {aggregate : List (Aggregation × List String)}
    (h : Reads c collection base paths { sort, group, filter, aggregate } scope)
    (hsort : sort = r.sort) (hgroup : group = r.group) (hfilter : filter = r.filter)
    (haggregate : aggregate = r.aggregate) : Reads c collection base paths r scope := by
  subst hsort hgroup hfilter haggregate
  exact ⟨h.charted, h.joins, ⟨h.reads.orders, h.reads.groups, h.reads.items⟩, h.asks⟩

/-- A request that is added to a statement without parts of its own reads all its paths. -/
theorem of_apply {q : Query} {applied : Applied}
    (hnamed : ∀ info, c.provider.collection collection = .ok (some info) →
      info.name = collection)
    (hjoins : q.joins = []) (hcondition : q.condition = none) (hgroups : q.groups = [])
    (horders : q.orders = []) (h : (c.apply collection q r false).Gives k applied k') :
    ∃ hops, Reads c collection q.items (c.walkedPaths collection r) r
      { query := applied.query, hops } := by
  simp only [Context.apply_eq, Compile.gives_bind, Compile.gives_pure] at h
  obtain ⟨info, k₁, hinfo, scope₁, k₂, horder, scope₂, k₃, hsearch, scope₃, k₄, hgroup,
    ⟨scope₄, repeatsRows⟩, k₅, hfilter, scope₅, k₆, haggregate, rfl, rfl⟩ := h
  obtain ⟨hfound, rfl⟩ := Context.collection_gives.mp hinfo
  have h₁ : Reads c collection q.items (r.sort.map sortPath) { sort := r.sort } scope₁ := by
    rw [Context.orderStage, if_neg Bool.false_ne_true] at horder
    obtain ⟨window, hwindow⟩ := Query.narrow_eq q (c.options.window r)
    rw [hwindow] at horder
    exact Compile.foldlM_builds
      (P := fun done s _ => Reads c collection q.items (done.map sortPath) { sort := done } s)
      (fun hdone hstep => by
        rw [List.map_append, List.map_singleton]
        exact hdone.sortBy hstep)
      (start (q := { q with window }) hjoins hcondition hgroups horders) horder
  have h₂ : Reads c collection q.items (r.sort.map sortPath) { sort := r.sort } scope₂ := by
    unfold Context.searchStage at hsearch
    split at hsearch
    · obtain ⟨rfl, -⟩ := Compile.gives_pure.mp hsearch
      exact h₁
    · obtain ⟨sought, hsought, rfl⟩ := Compile.gives_map.mp hsearch
      exact h₁.search rfl hsought
  have h₃ : Reads c collection q.items (r.sort.map sortPath ++ r.group.map fieldPath)
      { sort := r.sort, group := r.group } scope₃ := by
    refine Compile.foldlM_builds (P := fun done s _ => Reads c collection q.items
      (r.sort.map sortPath ++ done.map fieldPath) { sort := r.sort, group := done } s)
      (fun hdone hstep => ?_) ?_ hgroup
    · rw [List.map_append, List.map_singleton, ← List.append_assoc]
      exact hdone.groupBy rfl hstep
    · rw [List.map_nil, List.append_nil]
      exact h₂
  have h₄ : Reads c collection q.items
      (r.sort.map sortPath ++ r.group.map fieldPath ++ c.requestPaths collection r)
      { sort := r.sort, group := r.group, filter := r.filter } scope₄ := by
    rcases Context.filterStage_gives hfilter with ⟨hnone, rfl, -⟩ | ⟨f, hsome, hrestrict⟩
    · rw [Context.requestPaths, hnone, Option.toList_none, List.flatMap_nil, List.append_nil]
      exact h₃
    · rw [Context.requestPaths, hsome, Option.toList_some, List.flatMap_singleton]
      exact h₃.restrict rfl hrestrict
  refine ⟨scope₅.hops, ?_⟩
  unfold Context.aggregateStage at haggregate
  split at haggregate
  · next hempty =>
    obtain ⟨rfl, -⟩ := Compile.gives_pure.mp haggregate
    have hnone : r.aggregate = [] := List.isEmpty_iff.mp hempty
    rw [Context.walkedPaths, hnone, List.flatMap_nil, List.map_nil, List.append_nil]
    exact h₄.ofRequest rfl rfl rfl hnone.symm
  · obtain rfl : info.name = collection := hnamed info hfound
    exact (h₄.addAggregate rfl haggregate).ofRequest rfl rfl rfl rfl

/-- Each leaf of a filter that compares a field compares the column of its path. -/
theorem readBy_of_leavesGive {hops : Hops} {leaves : List Leaf} {predicates : List Expr}
    (hunfolded : ∀ leaf ∈ leaves, leaf.IsUnfolded)
    (h : c.LeavesGive hops collection leaves k predicates k') :
    ∃ asked, predicates = asked.flatten ∧ List.Forall₂ (Leaf.ReadBy c fun path e =>
      IsPath path ∧ c.ReadsAs hops collection path e) leaves asked := by
  induction leaves generalizing k predicates with
  | nil =>
    obtain ⟨parts, hparts, rfl⟩ := h
    rw [List.mapM_nil, Compile.gives_pure] at hparts
    obtain ⟨rfl, -⟩ := hparts
    exact ⟨[], rfl, .nil⟩
  | cons leaf rest ih =>
    obtain ⟨e?, k₁, others, hleaf, hrest, rfl⟩ := h.cons_gives
    obtain ⟨asked, rfl, hasked⟩ := ih (fun l hl => hunfolded l (List.mem_cons_of_mem _ hl)) hrest
    refine ⟨e?.toList.flatMap Expr.predicates :: asked, rfl, .cons ?_ hasked⟩
    cases leaf with
    | compared parents key comparisons =>
      obtain ⟨hparents, hkey⟩ := hunfolded _ List.mem_cons_self
      obtain ⟨column, hcolumn, hall⟩ := Context.compared_gives hleaf
      exact ⟨column, e?, ⟨hparents.append hkey.trim, k, column, k₁, hcolumn, rfl⟩, hall, rfl⟩
    | related parents key quantifier f => trivial

theorem asksBy (h : Reads c collection base paths r scope) :
    scope.query.AsksBy c collection
      (fun path e => IsPath path ∧ c.ReadsAs scope.hops collection path e) r := by
  obtain ⟨searched, filtered, hops, k, k', hcondition, hsearched, hkeeps, hleaves⟩ := h.asks
  have hunfolded : ∀ leaf ∈ c.requestLeaves collection r, leaf.IsUnfolded := by
    intro leaf hleaf
    obtain ⟨f, -, hmem⟩ := List.mem_flatMap.mp hleaf
    exact Context.isUnfolded_of_mem_leaves f.unfolded isPath_nil (isUnfolded_unfolded f) leaf hmem
  obtain ⟨asked, rfl, hasked⟩ := readBy_of_leavesGive hunfolded hleaves
  exact ⟨searched, asked, hcondition, hsearched, hasked.imp fun _ _ =>
    Leaf.ReadBy.mono fun _ _ hread => ⟨hread.1, hread.2.mono hkeeps⟩⟩

end Scope.Reads

/-! ## Compiled statements -/

/-- The expression that a path without a count of related rows is read by. -/
def Context.expr (c : Context) (hops : Hops) (collection : String) (path : List String) : Expr :=
  match c.column hops collection path 0 with
  | .ok (column, _) => column.expr
  | .error _ => .int 0

theorem Context.ReadsAs.eq_expr {c : Context} {hops : Hops} {collection : String}
    {path : List String} {e : Expr} (h : c.ReadsAs hops collection path e)
    (hcharted : hops.Charted c collection) (hpath : IsPath path)
    (hplain : ¬c.CountsRows collection path) : e = c.expr hops collection path := by
  obtain ⟨k, column, k', hcolumn, rfl⟩ := h
  have hstart : c.column hops collection path 0 = .ok (column, 0) :=
    Context.column_settled hcharted hpath hplain hcolumn 0
  rw [Context.expr, hstart]

theorem Scope.Reads.of_compile {s : Schema} {options : Options} {letters : Alias.Letters}
    {collection : String} {r : Request} {q : Query}
    (h : (s.compiler options letters).compile collection r = .ok q) :
    ∃ hops, Scope.Reads (s.context options (s.compiler options letters).names) collection
      (Compiler.target collection r).items
      ((s.context options (s.compiler options letters).names).walkedPaths collection r) r
      { query := q, hops } := by
  obtain ⟨applied, happlied, rfl⟩ := Compiler.compile_eq_ok h
  obtain ⟨relations, k, hrelations, happly⟩ := Compiler.apply_eq_ok happlied
  obtain rfl : s.relations = relations := Except.ok.inj hrelations
  have horders : (Compiler.target collection r).orders = [] := by
    unfold Compiler.target
    dsimp only
    split <;> rfl
  exact Scope.Reads.of_apply (fun info hinfo => s.name_of_collection hinfo)
    (Compiler.target_joins collection r) (Compiler.target_condition collection r)
    (Compiler.target_groups collection r) horders happly

/-- Attempts to join along paths of a collection, whether they succeed or not, only add joins and
records of them.  A path that was joined is found again after any attempts: nothing is joined, and
no alias is taken.  So in a compiled statement a path that does not count related rows is read by
one expression, wherever the request names it. -/
theorem paths_settled (s : Schema) (options : Options) (letters : Alias.Letters)
    (collection : String) :
    let c := s.context options (s.compiler options letters).names
    (∀ inner scope k path, (c.attempt inner collection scope k path).result =
      c.joinPath inner collection scope path k) ∧
    (∀ calls (scope : Scope) k, scope.Grows (c.attempts collection scope k calls).1) ∧
    (∀ inner path scope k scope' several k',
      (c.joinPath inner collection scope path).Gives k (scope', several) k' →
      ∀ calls later j, c.attempts collection scope' k' calls = (later, j) →
        (c.joinPath inner collection later path).Gives j (later, false) j) ∧
    ∀ r q, (s.compiler options letters).compile collection r = .ok q →
      ∃ expr : List String → Expr,
        q.ReadsBy (fun path e => ¬c.CountsRows collection path → e = expr path)
          (Compiler.target collection r).items r ∧
        q.AsksBy c collection (fun path e => ¬c.CountsRows collection path → e = expr path) r := by
  intro c
  refine ⟨fun inner scope k path => Context.result_attempt,
    fun calls scope k => (Context.grows_attempts calls scope k).1, ?_, fun r q h => ?_⟩
  · intro inner path scope k scope' several k' h calls later j hlater
    have hgrows : scope'.Grows (c.attempts collection scope' k' calls).1 :=
      (Context.grows_attempts calls scope' k').1
    rw [hlater] at hgrows
    exact Context.joinFrom_settled h hgrows.record j
  · obtain ⟨hops, hreads⟩ := Scope.Reads.of_compile h
    have hexpr : ∀ path e, IsPath path ∧ c.ReadsAs hops collection path e →
        ¬c.CountsRows collection path → e = c.expr hops collection path :=
      fun path e hread hplain => hread.2.eq_expr hreads.charted hread.1 hplain
    exact ⟨c.expr hops collection, hreads.reads.mono hexpr, hreads.asksBy.mono hexpr⟩

/-- The names of authors with some article, backwards, and the last of them. -/
def Request.named : Request where
  filter := some (.of (.field "author.name" (.compare [⟨.null true, none⟩])))
  sort := ["-author.name"]
  group := ["author.name"]
  aggregate := [(.max, [" author.name"])]

theorem paths_settled_blog :
    let c := Schema.blog.context {} (Schema.blog.compiler {} fun _ => 0).names
    (∃ scope several k, (c.joinPath false "articles" { query := {} } ["author", "name"]).Gives 0
        (scope, several) k ∧ scope.query.joins.length = 1 ∧
      (c.joinPath false "articles" scope ["author", "name"]).Gives k (scope, false) k) ∧
    ∃ q e, (Schema.blog.compiler {} fun _ => 0).compile "articles" .named = .ok q ∧
      q.orders = [⟨e, .desc⟩] ∧ q.groups = [e] ∧
      q.items.map Item.expr = [e, .call "MAX" [e] false] := by
  intro c
  obtain ⟨-, -, hagain, hcompiled⟩ := paths_settled Schema.blog {} (fun _ => 0) "articles"
  constructor
  · obtain ⟨⟨⟨scope, several⟩, k⟩, hjoin, hone⟩ :=
      Except.exists_eq_ok (x := c.joinPath false "articles" { query := {} } ["author", "name"] 0)
        (f := fun joined => joined.1.1.query.joins.length) (b := 1) (by decide +kernel)
    exact ⟨scope, several, k, hjoin, hone,
      hagain false _ _ 0 scope several k hjoin [] scope k rfl⟩
  · obtain ⟨q, hq⟩ : ∃ q, (Schema.blog.compiler {} fun _ => 0).compile "articles" .named =
        .ok q := Compiler.exists_compile (by decide +kernel)
    obtain ⟨expr, ⟨horders, hgroups, ⟨grouped, summed, hitems, hgrouped, hsummed⟩⟩, -⟩ :=
      hcompiled _ q hq
    obtain ⟨hsort, hgroup, hfield⟩ : sortPath "-author.name" = ["author", "name"] ∧
        fieldPath "author.name" = ["author", "name"] ∧
        fieldPath " author.name" = ["author", "name"] := by decide +kernel
    have hplain : ¬c.CountsRows "articles" ["author", "name"] := by
      rintro ⟨last, function, owner, f, hlast, hfunction, -⟩
      obtain rfl : "name" = last := Option.some.inj hlast
      have hnone : (splitFunction "name").1 = none := by decide +kernel
      rw [hnone] at hfunction
      cases hfunction
    obtain ⟨⟨e, direction⟩, orders, ⟨rfl, he⟩, hrest, horders⟩ :=
      List.forall₂_cons_left_iff.mp horders
    obtain rfl := List.forall₂_nil_left_iff.mp hrest
    obtain ⟨e', groups, he', hrest, hgroups⟩ := List.forall₂_cons_left_iff.mp hgroups
    obtain rfl := List.forall₂_nil_left_iff.mp hrest
    obtain ⟨items, others, hitem, hrest, hsummed⟩ := List.forall₂_cons_left_iff.mp hsummed
    obtain rfl := List.forall₂_nil_left_iff.mp hrest
    obtain ⟨item, more, hmax, hrest, rfl⟩ := List.forall₂_cons_left_iff.mp
      (hitem.resolve_left fun hall => absurd hall.1 (by decide))
    obtain rfl := List.forall₂_nil_left_iff.mp hrest
    obtain ⟨e'', he'', hexpr⟩ := hmax.resolve_left fun hrows => absurd hrows.1 (by decide)
    dsimp only at he he' he''
    rw [hsort] at he
    rw [hgroup] at he'
    rw [hfield] at he''
    obtain rfl := he hplain
    obtain rfl := he' hplain
    obtain rfl := he'' hplain
    have hbase : (Compiler.target "articles" .named).items = [] := rfl
    refine ⟨q, _, hq, horders, hgroups, ?_⟩
    rw [hitems, hgrouped, hsummed, hgroups, hbase]
    simp [Request.named, hexpr, Aggregation.apply]

end JsonSql
