import JsonSql.Proofs.LinkedRows
import Mathlib.Algebra.BigOperators.Group.Multiset.Basic
import Mathlib.Algebra.GroupWithZero.Nat
import Mathlib.Logic.Function.Basic

set_option autoImplicit false

/-!
# How often rows are put side by side

The joins of a statement put, beside a row of its collection, one row at each path that is joined.
What is measured of all the tables that come out is a nested sum over the paths (`tally`), which
does not depend on the order of the joins.  A path at which every row has one row beside it can be
left out of it (`tally_eq_of_single`).
-/

namespace JsonSql

open JsonSql.Sql

variable {E : Engine} {s : Schema} {db : Database E} {options : Options} {names : Nat → String}
  {collection : String} {scope scope' : Scope} {k k' : Nat}

/-! ## Sums over the rows at paths -/

/-- A row at each path from a collection; that of the collection itself is at the empty path. -/
abbrev Placed (E : Engine) := List String → Row E

/-- The sum of a count over the rows that are put at paths, one path after another, each beside the
row at the path that it continues. -/
def tally (beside : List String → Row E → List (Row E)) (count : Placed E → Nat) :
    List (List String) → Placed E → Nat
  | [], rows => count rows
  | path :: rest, rows => ((beside path (rows path.dropLast)).map fun row =>
      tally beside count rest (Function.update rows path row)).sum

variable {beside : List String → Row E → List (Row E)} {count : Placed E → Nat}

theorem tally_append (first second : List (List String)) (rows : Placed E) :
    tally beside count (first ++ second) rows =
      tally beside (tally beside count second) first rows := by
  induction first generalizing rows with
  | nil => rfl
  | cons path rest ih =>
    simp only [List.cons_append, tally, ih]

theorem sum_map_comm {α β : Type} (items : List α) (others : List β) (f : α → β → Nat) :
    (items.map fun a => (others.map fun b => f a b).sum).sum =
      (others.map fun b => (items.map fun a => f a b).sum).sum := by
  simpa using Multiset.sum_map_sum_map (items : Multiset α) (others : Multiset β) (f := f)

/-- Two paths neither of which continues the other can be taken in either order. -/
theorem tally_swap {path other : List String} (hne : path ≠ other)
    (hfirst : path.dropLast ≠ other) (hsecond : other.dropLast ≠ path)
    (rest : List (List String)) (rows : Placed E) :
    tally beside count (path :: other :: rest) rows =
      tally beside count (other :: path :: rest) rows := by
  simp only [tally, Function.update_of_ne hfirst, Function.update_of_ne hsecond]
  rw [sum_map_comm]
  simp only [Function.update_comm hne]

/-- A path that continues none of the paths before it can be taken first. -/
theorem tally_middle {path : List String} {before : List (List String)}
    (hbefore : ∀ other ∈ before, other ≠ path ∧ other.dropLast ≠ path ∧ path.dropLast ≠ other)
    (after : List (List String)) (rows : Placed E) :
    tally beside count (before ++ path :: after) rows =
      tally beside count (path :: (before ++ after)) rows := by
  induction before generalizing rows with
  | nil => rfl
  | cons other rest ih =>
    obtain ⟨hne, hfirst, hsecond⟩ := hbefore other List.mem_cons_self
    have hrest := ih fun p hp => hbefore p (List.mem_cons_of_mem _ hp)
    rw [List.cons_append, List.cons_append, ← tally_swap hne hfirst hsecond, tally, tally]
    simp only [hrest]

/-- Paths at which there is one row each, none of which is counted. -/
theorem tally_of_single {paths ignored : List (List String)} (hpaths : paths ⊆ ignored)
    (hsingle : ∀ path ∈ paths, ∀ row, ∃ found, beside path row = [found])
    (hcount : ∀ rows rows' : Placed E, (∀ path, path ∉ ignored → rows path = rows' path) →
      count rows = count rows') (rows : Placed E) :
    tally beside count paths rows = count rows := by
  induction paths generalizing rows with
  | nil => rfl
  | cons path rest ih =>
    obtain ⟨found, hfound⟩ := hsingle path List.mem_cons_self (rows path.dropLast)
    rw [tally, hfound, List.map_singleton, List.sum_singleton,
      ih (fun p hp => hpaths (List.mem_cons_of_mem _ hp))
        (fun p hp => hsingle p (List.mem_cons_of_mem _ hp))]
    refine hcount _ _ fun other hother => Function.update_of_ne ?_ _ _
    rintro rfl
    exact hother (hpaths List.mem_cons_self)

/-- Paths that are joined one after another: each once, and none before one that it continues. -/
structure IsWalk (paths : List (List String)) : Prop where
  distinct : paths.Nodup
  ordered : paths.Pairwise fun path later => path.dropLast ≠ later

theorem IsWalk.sublist {paths others : List (List String)} (h : IsWalk paths)
    (hsub : others.Sublist paths) : IsWalk others :=
  ⟨h.distinct.sublist hsub, h.ordered.sublist hsub⟩

/-- Fewer paths have the same tally, if each of the others has one row beside every row and is not
counted, and none of the fewer continues one of the others.  By induction on the fewer paths, the
next of which is taken first among all. -/
theorem tally_eq_of_single {fewer : List (List String)} :
    ∀ {paths : List (List String)}, IsWalk paths → IsWalk fewer → fewer ⊆ paths →
      (∀ path ∈ fewer, path.dropLast ∈ paths → path.dropLast ∈ fewer) →
      (∀ path ∈ paths, path ∉ fewer → ∀ row, ∃ found, beside path row = [found]) →
      (∀ rows rows' : Placed E, (∀ path, path ∈ fewer ∨ path ∉ paths → rows path = rows' path) →
        count rows = count rows') →
      ∀ rows : Placed E, tally beside count paths rows = tally beside count fewer rows := by
  induction fewer with
  | nil =>
    intro paths _ _ _ _ hsingle hcount rows
    exact tally_of_single (List.Subset.refl paths)
      (fun path hpath => hsingle path hpath List.not_mem_nil)
      (fun rows rows' hsame => hcount rows rows' fun path hpath =>
        hsame path (hpath.resolve_left List.not_mem_nil)) rows
  | cons path rest ih =>
    intro paths hpaths hfewer hsub hclosed hsingle hcount rows
    obtain ⟨before, after, rfl⟩ := List.append_of_mem (hsub List.mem_cons_self)
    obtain ⟨hnew, hdistinct⟩ := List.nodup_cons.mp hfewer.distinct
    obtain ⟨hfirst, -⟩ := List.pairwise_cons.mp hfewer.ordered
    have hothers : path ∉ before ++ after := by
      have hmiddle := List.nodup_middle.mp hpaths.distinct
      exact (List.nodup_cons.mp hmiddle).1
    have hremoved : (before ++ after).Sublist (before ++ path :: after) :=
      List.Sublist.append_left (List.sublist_cons_self path after) before
    have hmem {other : List String} (h : other ∈ before ++ path :: after) (hne : other ≠ path) :
        other ∈ before ++ after := by
      rcases List.mem_append.mp h with h | h
      · exact List.mem_append_left _ h
      · exact List.mem_append_right _ ((List.mem_cons.mp h).resolve_left hne)
    have hbefore : ∀ other ∈ before,
        other ≠ path ∧ other.dropLast ≠ path ∧ path.dropLast ≠ other := by
      intro other hother
      have hafter := (List.pairwise_append.mp hpaths.ordered).2.2 other hother path
        List.mem_cons_self
      refine ⟨fun hsame => hothers (hsame ▸ List.mem_append_left _ hother), hafter, ?_⟩
      rintro rfl
      -- what the path continues is one of the fewer, and comes before it among them
      rcases List.mem_cons.mp (hclosed path List.mem_cons_self (List.mem_append_left _ hother))
        with hself | hrest
      · exact hothers (hself ▸ List.mem_append_left _ hother)
      · exact hfirst _ hrest rfl
    rw [tally_middle hbefore, tally, tally]
    refine congrArg List.sum (List.map_congr_left fun row _ => ?_)
    refine ih (hpaths.sublist hremoved) (hfewer.sublist (List.sublist_cons_self path rest))
      (fun other hother => hmem (hsub (List.mem_cons_of_mem _ hother))
        fun hsame => hnew (hsame ▸ hother))
      (fun other hother hparent => ?_) (fun other hother hnone => ?_)
      (fun rows rows' hsame => hcount rows rows' fun other hother => ?_) _
    · refine (List.mem_cons.mp (hclosed other (List.mem_cons_of_mem _ hother)
        (hremoved.mem hparent))).resolve_left fun hsame => hothers (hsame ▸ hparent)
    · refine hsingle other (hremoved.mem hother) fun hfound => ?_
      rcases List.mem_cons.mp hfound with rfl | hrest
      · exact hothers hother
      · exact hnone hrest
    · refine hsame other ?_
      rcases hother with hother | hother
      · rcases List.mem_cons.mp hother with rfl | hrest
        · exact .inr hothers
        · exact .inl hrest
      · exact .inr fun hfound => hother (hremoved.mem hfound)

/-! ## Rows at the paths of a statement -/

/-- The collection that the segments of a path lead to. -/
def Schema.reached? (s : Schema) (collection : String) (path : List String) : Option String :=
  path.foldlM (fun owner segment => (link s.relations owner segment).target?) collection

/-- The rows that are put at a path beside a row at the path that it continues. -/
def Schema.besideAt (s : Schema) (db : Database E) (collection : String) (path : List String)
    (row : Row E) : List (Row E) :=
  match s.reached? collection path.dropLast, path.getLast? with
  | some owner, some segment =>
    (link s.relations owner segment).beside s db owner row
      ((link s.relations owner segment).target?.getD "")
  | _, _ => []

theorem besideAt_concat {before : List String} {owner segment target : String}
    (howner : s.reached? collection before = some owner)
    (htarget : (link s.relations owner segment).target? = some target) (row : Row E) :
    s.besideAt db collection (before ++ [segment]) row =
      (link s.relations owner segment).beside s db owner row target := by
  rw [Schema.besideAt, List.dropLast_concat, List.getLast?_concat, howner]
  dsimp only
  rw [htarget, Option.getD_some]

/-- The tables in scope stand for the rows at their paths: the collection for that at the empty
path, each join for that at the path that it is recorded under. -/
structure Places (collection : String) (hops : Hops) (tables : Tables E) (rows : Placed E) :
    Prop where
  root : rowOf tables collection = rows []
  hop : ∀ path hop, path ≠ [] → IsPath path → hops.get? path = some hop →
    rowOf tables hop.name = rows path

theorem Places.reached {tables : Tables E} {rows : Placed E} {before : List String} {place : Place}
    (h : Places collection scope.hops tables rows) (hpath : IsPath before)
    (hreach : scope.Reaches collection before place) : rowOf tables place.table = rows before := by
  cases hreach with
  | root => exact h.root
  | hop hfound => exact h.hop _ _ (by simp) hpath hfound

/-- One more row at a path that is joined under a new name. -/
theorem Places.insert {hops : Hops} {tables : Tables E} {rows : Placed E} {path : List String}
    {name target : String} (h : Places collection hops tables rows) (hne : path ≠ [])
    (hpath : IsPath path) (hroot : collection ≠ name)
    (hother : ∀ path hop, hops.get? path = some hop → hop.name ≠ name) (row : Row E) :
    Places collection (hops.insert path ⟨name, target⟩) ((name, row) :: tables)
      (Function.update rows path row) := by
  refine ⟨?_, fun other hop hother' hsegments hfound => ?_⟩
  · rw [rowOf_cons_of_ne hroot, Function.update_of_ne hne.symm, h.root]
  · rcases Hops.get?_insert_eq_some hfound with ⟨hkey, rfl⟩ | ⟨hkey, hold⟩
    · obtain rfl := Hops.key_injective hsegments hpath hother' hne hkey
      rw [rowOf_cons_self, Function.update_self]
    · have hdifferent : other ≠ path := fun hsame => hkey (congrArg Hops.key hsame)
      rw [rowOf_cons_of_ne (hother other hop hold), Function.update_of_ne hdifferent,
        h.hop other hop hother' hsegments hold]

/-- The paths that a statement joins, in the order of its joins, and what is measured of its
tables: the tally over these paths of what is counted of the rows that the tables stand for. -/
structure Scope.Tallies (s : Schema) (db : Database E) (collection : String) (scope : Scope)
    (walked : List (List String)) : Prop where
  walk : IsWalk walked
  paths : ∀ path ∈ walked, path ≠ [] ∧ IsPath path
  closed : ∀ path ∈ walked, path.dropLast = [] ∨ path.dropLast ∈ walked
  recorded : ∀ path, path ≠ [] → IsPath path → ((scope.hops.get? path).isSome ↔ path ∈ walked)
  linked : ∀ before segment, before ++ [segment] ∈ walked → ∃ owner target,
    s.reached? collection before = some owner ∧
      (link s.relations owner segment).target? = some target ∧
      ((link s.relations owner segment).isToMany = false → ∃ c, s.collection? target = some c)
  tallied : ∀ (outer : Tables E) (measure : Tables E → Nat) (count : Placed E → Nat)
    (rows : Placed E),
    (∀ tables ∈ joinTables db ((collection, rows []) :: outer) scope.query.joins,
      ∀ placed, Places collection scope.hops tables placed → measure tables = count placed) →
    ((joinTables db ((collection, rows []) :: outer) scope.query.joins).map measure).sum =
      tally (s.besideAt db collection) count walked rows

namespace Scope.Tallies

variable {walked : List (List String)} {declared : Collection}

theorem ofNil {q : Query} (hjoins : q.joins = []) :
    Scope.Tallies s db collection { query := q } [] := by
  refine ⟨⟨List.nodup_nil, .nil⟩, fun _ hpath => (by cases hpath), fun _ hpath => (by cases hpath),
    fun path _ _ => ⟨fun h => (by cases h), fun h => (by cases h)⟩,
    fun _ _ hmem => (by cases hmem), fun outer measure count rows hmeasure => ?_⟩
  rw [hjoins, joinTables_nil] at hmeasure ⊢
  rw [List.map_singleton, List.sum_singleton, tally]
  exact hmeasure _ (List.mem_singleton_self _) rows
    ⟨rowOf_cons_self collection _ outer, fun _ _ _ _ hfound => (by cases hfound)⟩

/-- The joins of a statement alone count. -/
theorem congr (h : scope.Tallies s db collection walked) {other : Scope}
    (hjoins : other.query.joins = scope.query.joins) (hhops : other.hops = scope.hops) :
    other.Tallies s db collection walked := by
  refine ⟨h.walk, h.paths, h.closed, ?_, h.linked, ?_⟩
  · rw [hhops]
    exact h.recorded
  · rw [hjoins, hhops]
    exact h.tallied

end Scope.Tallies

/-! ## Joins -/

/-- A place that is reached goes by no alias that is still to be issued. -/
theorem Hops.Led.reached_ne {before : List String} {place : Place}
    (hinjective : Function.Injective names) (hroot : collection ≠ names k)
    (hled : scope.hops.Led (s.context options names) collection k)
    (h : scope.Reaches collection before place) : place.table ≠ names k := by
  cases h with
  | root => exact hroot
  | hop hfound => exact hled.name_ne hinjective hfound

/-- A link to one row is joined to a collection that there is. -/
theorem collection?_of_joinTarget {place : Place} {segment table target : String} {link : Link}
    {condition : Expr} (hone : link.isToMany = false)
    (h : ((s.context options names).joinTarget place segment table link).Gives k
      (target, condition) k') :
    ∃ c, s.collection? target = some c := by
  cases link with
  | none => exact absurd h Compile.not_gives_throw
  | manyToOne r =>
    unfold Context.joinTarget at h
    dsimp only at h
    split at h
    · exact absurd h Compile.not_gives_throw
    · simp only [Compile.gives_bind, Compile.gives_pure] at h
      obtain ⟨primary, k₁, hprimary, hresult, -⟩ := h
      obtain ⟨c, hc, -⟩ := primary_context_gives hprimary
      cases hresult
      exact ⟨c, hc⟩
  | manyToAny r scope =>
    unfold Context.joinTarget at h
    dsimp only at h
    split at h
    · exact absurd h Compile.not_gives_throw
    · split at h
      · simp only [Compile.gives_bind, Compile.gives_pure] at h
        obtain ⟨column, k₁, -, primary, k₂, hprimary, hresult, -⟩ := h
        obtain ⟨c, hc, -⟩ := primary_context_gives hprimary
        cases hresult
        exact ⟨c, hc⟩
      · exact absurd h Compile.not_gives_throw
  | oneToMany r | oneToAny r => cases hone

/-- One more join puts a row of its link in front of the tables, or one of nulls. -/
theorem JoinStep.joinTables_eq (db : Database E) {path before : List String}
    {segment target : String} {place : Place} {condition : Expr} (hfresh : place.table ≠ names k)
    (h : JoinStep (s.context options names) collection path scope k before segment place target
      condition scope' k') (start : Tables E) :
    joinTables db start scope'.query.joins =
      (joinTables db start scope.query.joins).flatMap fun tables =>
        ((link s.relations place.collection segment).beside s db place.collection
          (rowOf tables place.table) target).map fun row => (names k, row) :: tables := by
  obtain ⟨-, -, -, hjoined, rfl⟩ := h
  dsimp only
  rw [Query.addJoin_joins, joinTables_append]
  refine congrArg (fun next => List.flatMap next (joinTables db start scope.query.joins))
    (funext fun tables => ?_)
  rw [joinTables_singleton]
  exact tables_joinTarget hfresh hjoined

/-- One more join, under a new alias, adds its path. -/
theorem Scope.Tallies.joinStep {walked : List (List String)} {declared : Collection}
    {path before : List String} {segment target : String} {place : Place} {condition : Expr}
    (hinjective : Function.Injective names) (hc : s.collection? collection = some declared)
    (havoids : s.AvoidsAliases names k') (hpath : IsPath path)
    (hled : scope.hops.Led (s.context options names) collection k)
    (h : scope.Tallies s db collection walked)
    (hstep : JoinStep (s.context options names) collection path scope k before segment place
      target condition scope' k') :
    scope'.Tallies s db collection (walked ++ [before ++ [segment]]) := by
  have hroot : collection ≠ names k := havoids.ne (Context.grows_joinTarget _ _ _ _ hstep.joined) hc
  have hplace := hled.reached_ne hinjective hroot hstep.reached
  have htables := hstep.joinTables_eq db hplace
  obtain ⟨halong, hreach, hfresh, hjoined, rfl⟩ := hstep
  have hnext : IsPath (before ++ [segment]) := hpath.ofPrefix halong
  have hbefore : IsPath before := fun s hs => hnext s (List.mem_append_left _ hs)
  have hnew : before ++ [segment] ∉ walked := by
    rw [← h.recorded _ (by simp) hnext, hfresh]
    exact Bool.false_ne_true
  have hparent : before = [] ∨ before ∈ walked := by
    cases hreach with
    | root => exact .inl rfl
    | hop hfound => exact .inr ((h.recorded _ (by simp) hbefore).mp (by rw [hfound]; rfl))
  refine ⟨⟨?_, ?_⟩, ?_, ?_, ?_, ?_, ?_⟩
  · refine List.nodup_append.mpr ⟨h.walk.distinct, List.nodup_singleton _, ?_⟩
    rintro other hother last hlast rfl
    exact hnew (List.mem_singleton.mp hlast ▸ hother)
  · refine List.pairwise_append.mpr ⟨h.walk.ordered, List.pairwise_singleton _ _, ?_⟩
    rintro other hother last hlast hsame
    rw [List.mem_singleton.mp hlast] at hsame
    rcases h.closed other hother with hnone | hsome
    · simp [hnone] at hsame
    · exact hnew (hsame ▸ hsome)
  · intro other hother
    rcases List.mem_append.mp hother with hother | hother
    · exact h.paths other hother
    · rw [List.mem_singleton.mp hother]
      exact ⟨by simp, hnext⟩
  · intro other hother
    rcases List.mem_append.mp hother with hother | hother
    · exact (h.closed other hother).imp_right (List.mem_append_left _)
    · rw [List.mem_singleton.mp hother, List.dropLast_concat]
      exact hparent.imp_right (List.mem_append_left _)
  · intro other hne hother
    rw [List.mem_append, List.mem_singleton, ← h.recorded other hne hother]
    by_cases hkey : Hops.key other = Hops.key (before ++ [segment])
    · obtain rfl := Hops.key_injective hother hnext hne (by simp) hkey
      simp
    · have hdifferent : other ≠ before ++ [segment] := fun hsame => hkey (congrArg Hops.key hsame)
      simp [Hops.get?_insert_of_ne _ hkey, hdifferent]
  · intro other last hother
    rcases List.mem_append.mp hother with hother | hother
    · exact h.linked other last hother
    · obtain ⟨rfl, hlast⟩ := List.append_inj' (List.mem_singleton.mp hother) rfl
      obtain rfl := List.singleton_inj.mp hlast
      exact ⟨place.collection, target, hled.reached hbefore hreach,
        Context.target?_of_joinTarget hjoined, fun hone => collection?_of_joinTarget hone hjoined⟩
  · intro outer measure count rows hmeasure
    rw [htables] at hmeasure ⊢
    rw [tally_append, List.map_flatMap, List.flatMap_def, List.sum_flatten, List.map_map]
    refine h.tallied outer _ _ rows fun tables hmem placed hplaced => ?_
    have hrow : rowOf tables place.table = placed before := hplaced.reached hbefore hreach
    rw [tally, List.dropLast_concat, besideAt_concat (hled.reached hbefore hreach)
      (Context.target?_of_joinTarget hjoined), Function.comp_apply, hrow, List.map_map]
    refine congrArg List.sum (List.map_congr_left fun row hbeside => ?_)
    refine hmeasure _ (List.mem_flatMap.mpr ⟨tables, hmem, List.mem_map_of_mem ?_⟩) _
      (hplaced.insert (by simp) hnext hroot (fun _ _ hfound => hled.name_ne hinjective hfound) row)
    rw [hrow]
    exact hbeside

end JsonSql
