import JsonSql.Proofs.Parts
import JsonSql.Proofs.Tallies

set_option autoImplicit false

/-!
# Tables that joins put side by side

The joins of a statement put rows side by side, join after join, so that each row is one that its
link finds for the row before it, or a row of nulls if there is none (`Scope.Fits`).  All such rows
are put side by side: whatever rows fit together in one statement on a collection, another statement
on it has the same rows in the joins that it shares (`Scope.Joins`).  So two statements with
different names and different further joins have the same rows where they join the same paths.
-/

namespace JsonSql

open JsonSql.Sql

variable {E : Engine} {s : Schema} {db : Database E} {options : Options} {names : Nat → String}
  {collection : String} {tables tables' : Tables E} {scope scope' other : Scope} {k k' : Nat}

/-! ## Rows that fit together -/

/-- In the tables in scope, each join that is recorded stands for a row beside the row of the place
that it starts from. -/
def Scope.Fits (s : Schema) (db : Database E) (collection : String) (scope : Scope)
    (tables : Tables E) : Prop :=
  ∀ before segment hop, IsPath (before ++ [segment]) →
    scope.hops.get? (before ++ [segment]) = some hop →
    ∃ place, scope.Reaches collection before place ∧
      (link s.relations place.collection segment).target? = some hop.collection ∧
      rowOf tables hop.name ∈ (link s.relations place.collection segment).beside s db
        place.collection (rowOf tables place.table) hop.collection

/-- The tables in scope of two statements have the same row of their collection, and the same rows
where both record a join. -/
structure SameRows (collection : String) (hops hops' : Hops) (tables tables' : Tables E) :
    Prop where
  root : rowOf tables collection = rowOf tables' collection
  hop : ∀ path hop hop', hops.get? path = some hop → hops'.get? path = some hop' →
    hop.collection = hop'.collection ∧ rowOf tables hop.name = rowOf tables' hop'.name

namespace SameRows

variable {hops hops' : Hops}

theorem symm (h : SameRows collection hops hops' tables tables') :
    SameRows collection hops' hops tables' tables := by
  refine ⟨h.root.symm, fun path hop hop' hfound hfound' => ?_⟩
  obtain ⟨hcollection, hrow⟩ := h.hop path hop' hop hfound' hfound
  exact ⟨hcollection.symm, hrow.symm⟩

/-- Fewer joins recorded. -/
theorem mono {fewer fewer' : Hops} (h : SameRows collection hops hops' tables tables')
    (hkeeps : Context.Keeps fewer hops) (hkeeps' : Context.Keeps fewer' hops') :
    SameRows collection fewer fewer' tables tables' :=
  ⟨h.root, fun path hop hop' hfound hfound' =>
    h.hop path hop hop' (hkeeps path hop hfound) (hkeeps' path hop' hfound')⟩

/-- The same path leads to the same row. -/
theorem reached {before : List String} {place place' : Place}
    (h : SameRows collection scope.hops other.hops tables tables')
    (hreach : scope.Reaches collection before place)
    (hreach' : other.Reaches collection before place') :
    place.collection = place'.collection ∧
      rowOf tables place.table = rowOf tables' place'.table := by
  cases hreach with
  | root =>
    generalize hnone : ([] : List String) = path at hreach'
    cases hreach' with
    | root => exact ⟨rfl, h.root⟩
    | hop _ => simp at hnone
  | @hop before segment found hfound =>
    generalize hpath : before ++ [segment] = path at hreach'
    cases hreach' with
    | root => simp at hpath
    | hop hfound' => exact h.hop _ _ _ hfound (hpath ▸ hfound')

/-- One more join recorded in the first statement, under a new name. -/
theorem insert {path : List String} {name target : String} {row : Row E}
    (h : SameRows collection hops hops' tables tables') (hroot : collection ≠ name)
    (hother : ∀ path hop, hops.get? path = some hop → hop.name ≠ name)
    (hrow : ∀ hop', hops'.get? path = some hop' →
      target = hop'.collection ∧ row = rowOf tables' hop'.name) :
    SameRows collection (hops.insert path ⟨name, target⟩) hops' ((name, row) :: tables)
      tables' := by
  refine ⟨(rowOf_cons_of_ne hroot row tables).trans h.root, fun found hop hop' hfound hfound' => ?_⟩
  rcases Hops.get?_insert_eq_some hfound with ⟨hkey, rfl⟩ | ⟨-, hold⟩
  · rw [Hops.get?, hkey, ← Hops.get?] at hfound'
    obtain ⟨hcollection, hsame⟩ := hrow hop' hfound'
    exact ⟨hcollection, (rowOf_cons_self name row tables).trans hsame⟩
  · obtain ⟨hcollection, hsame⟩ := h.hop found hop hop' hold hfound'
    exact ⟨hcollection, (rowOf_cons_of_ne (hother found hop hold) row tables).trans hsame⟩

end SameRows

/-! ## Joins -/

/-- The joins of a statement put the rows side by side that fit together, and all of them: those
that fit together in any other statement on the collection are there, as far as it records the same
joins.  How often they do so is tallied over the paths that they join. -/
structure Scope.Joins (s : Schema) (db : Database E) (collection : String) (scope : Scope) :
    Prop where
  fits : ∀ (outer : Tables E) (row : Row E),
    ∀ tables ∈ joinTables db ((collection, row) :: outer) scope.query.joins,
      rowOf tables collection = row ∧ scope.Fits s db collection tables
  follows : ∀ (other : Scope) (tables' : Tables E), other.Fits s db collection tables' →
    ∀ outer : Tables E, ∃ tables ∈ joinTables db ((collection, rowOf tables' collection) :: outer)
      scope.query.joins, SameRows collection scope.hops other.hops tables tables'
  tallies : ∃ walked, scope.Tallies s db collection walked

/-- A place that is reached is still reached after a join of another path. -/
theorem Scope.Reaches.mono {before : List String} {place : Place}
    (h : scope.Reaches collection before place) (hkeeps : Context.Keeps scope.hops scope'.hops) :
    scope'.Reaches collection before place := by
  cases h with
  | root => exact .root
  | hop hfound => exact .hop (hkeeps _ _ hfound)

/-- A left join puts some row beside every row. -/
theorem Link.beside_ne_nil (s : Schema) (db : Database E) (owner : String) (row : Row E)
    (target : String) (link : Link) : link.beside s db owner row target ≠ [] := by
  rw [Link.beside]
  cases link.found s db owner row target <;> simp [orOne]

namespace Scope.Joins

variable {declared : Collection}

theorem ofNil {q : Query} (hjoins : q.joins = []) :
    Scope.Joins s db collection { query := q } := by
  refine ⟨fun outer row tables htables => ?_, fun other tables' _ outer => ?_, [], .ofNil hjoins⟩
  · rw [hjoins, joinTables_nil, List.mem_singleton] at htables
    rw [htables]
    exact ⟨rowOf_cons_self collection row outer, fun _ _ _ _ hfound => (by cases hfound)⟩
  · refine ⟨(collection, rowOf tables' collection) :: outer, ?_, ?_, ?_⟩
    · rw [hjoins, joinTables_nil]
      exact List.mem_singleton_self _
    · exact rowOf_cons_self collection _ outer
    · intro path hop hop' hfound
      cases hfound

/-- The joins of a statement alone count. -/
theorem congr (h : scope.Joins s db collection) {other : Scope}
    (hjoins : other.query.joins = scope.query.joins) (hhops : other.hops = scope.hops) :
    other.Joins s db collection := by
  obtain ⟨walked, htallies⟩ := h.tallies
  have htallies' := htallies.congr hjoins hhops
  obtain ⟨q, hops⟩ := scope
  obtain ⟨q', hops'⟩ := other
  obtain rfl : hops' = hops := hhops
  have hfits (tables : Tables E) : Scope.Fits s db collection ⟨q, hops'⟩ tables →
      Scope.Fits s db collection ⟨q', hops'⟩ tables := by
    intro hall before segment hop hpath hfound
    obtain ⟨place, hreach, hrest⟩ := hall before segment hop hpath hfound
    exact ⟨place, hreach.mono fun _ _ hkept => hkept, hrest⟩
  refine ⟨fun outer row tables htables => ?_, fun found tables' hfound outer => ?_, walked,
    htallies'⟩
  · rw [hjoins] at htables
    obtain ⟨hroot, hfit⟩ := h.fits outer row tables htables
    exact ⟨hroot, hfits tables hfit⟩
  · rw [hjoins]
    exact h.follows found tables' hfound outer

/-- One more join, under a new alias. -/
theorem joinStep {path before : List String} {segment target : String} {place : Place}
    {condition : Expr} (hinjective : Function.Injective names)
    (hc : s.collection? collection = some declared) (havoids : s.AvoidsAliases names k')
    (hpath : IsPath path) (hled : scope.hops.Led (s.context options names) collection k)
    (h : scope.Joins s db collection)
    (hstep : JoinStep (s.context options names) collection path scope k before segment place
      target condition scope' k') :
    scope'.Joins s db collection := by
  have hkeeps := Context.keeps_of_joinStep (fun _ _ hfound => hfound) hstep
  -- the new alias hides no table
  have hroot : collection ≠ names k :=
    havoids.ne (Context.grows_joinTarget _ _ _ _ hstep.joined) hc
  have hother : ∀ path hop, scope.hops.get? path = some hop → hop.name ≠ names k :=
    fun path hop hfound => hled.name_ne hinjective hfound
  have htable {before : List String} {place : Place} (h : scope.Reaches collection before place) :
      place.table ≠ names k := hled.reached_ne hinjective hroot h
  have htables := hstep.joinTables_eq db (htable hstep.reached)
  obtain ⟨walked, htallies⟩ := h.tallies
  have htallies' := htallies.joinStep hinjective hc havoids hpath hled hstep
  obtain ⟨halong, hreach, hnew, hjoined, rfl⟩ := hstep
  have hnext : IsPath (before ++ [segment]) := hpath.ofPrefix halong
  have htarget : (link s.relations place.collection segment).target? = some target :=
    Context.target?_of_joinTarget hjoined
  refine ⟨fun outer row joined hmem => ?_, fun other tables' hfits' outer => ?_, _, htallies'⟩
  · rw [htables, List.mem_flatMap] at hmem
    obtain ⟨tables, hmem, hnewest⟩ := hmem
    obtain ⟨found, hfound, rfl⟩ := List.mem_map.mp hnewest
    obtain ⟨hrow, hfits⟩ := h.fits outer row tables hmem
    refine ⟨(rowOf_cons_of_ne hroot found tables).trans hrow, ?_⟩
    intro before' segment' hop hpath' hhop
    rcases Hops.get?_insert_eq_some hhop with ⟨hkey, rfl⟩ | ⟨-, hold⟩
    · obtain ⟨rfl, hsegment⟩ := List.append_inj'
        (Hops.key_injective hpath' hnext (by simp) (by simp) hkey) rfl
      obtain rfl := List.singleton_inj.mp hsegment
      refine ⟨place, hreach.mono hkeeps, htarget, ?_⟩
      rw [Schema.context_names, rowOf_cons_self, rowOf_cons_of_ne (htable hreach)]
      exact hfound
    · obtain ⟨place', hreach', htarget', hbeside⟩ := hfits before' segment' hop hpath' hold
      refine ⟨place', hreach'.mono hkeeps, htarget', ?_⟩
      rw [rowOf_cons_of_ne (hother _ _ hold), rowOf_cons_of_ne (htable hreach')]
      exact hbeside
  · obtain ⟨tables, hmem, hsame⟩ := h.follows other tables' hfits' outer
    -- the row of the same join in the other statement, or any row if there is none
    obtain ⟨row, hrow, hshared⟩ : ∃ row ∈ (link s.relations place.collection segment).beside s db
        place.collection (rowOf tables place.table) target,
        ∀ hop', other.hops.get? (before ++ [segment]) = some hop' →
          target = hop'.collection ∧ row = rowOf tables' hop'.name := by
      cases hfound : other.hops.get? (before ++ [segment]) with
      | none =>
        obtain ⟨row, hrow⟩ := List.exists_mem_of_ne_nil _
          (Link.beside_ne_nil s db place.collection (rowOf tables place.table) target
            (link s.relations place.collection segment))
        exact ⟨row, hrow, fun hop' hnone => (by cases hnone)⟩
      | some hop' =>
        obtain ⟨place', hreach', htarget', hbeside⟩ := hfits' before segment hop' hnext hfound
        obtain ⟨hcollection, hplace⟩ := hsame.reached hreach hreach'
        rw [← hcollection, ← hplace] at hbeside
        rw [← hcollection, htarget] at htarget'
        obtain rfl := Option.some.inj htarget'
        refine ⟨_, hbeside, fun found hsome => ?_⟩
        obtain rfl := Option.some.inj hsome
        exact ⟨rfl, rfl⟩
    refine ⟨(names k, row) :: tables, ?_, hsame.insert hroot hother hshared⟩
    rw [htables, List.mem_flatMap]
    exact ⟨tables, hmem, List.mem_map_of_mem hrow⟩

/-- Joins along a path. -/
theorem joinPath {inner several : Bool} {path : List String}
    (hinjective : Function.Injective names) (hc : s.collection? collection = some declared)
    (havoids : s.AvoidsAliases names k') (hpath : IsPath path)
    (hled : scope.hops.Led (s.context options names) collection k)
    (h : scope.Joins s db collection)
    (hjoin : ((s.context options names).joinPath inner collection scope path).Gives k
      (scope', several) k') :
    scope'.Joins s db collection := by
  have hboth := Context.joinPath_keeps
    (P := fun scope k => s.AvoidsAliases names k →
      scope.hops.Led (s.context options names) collection k ∧ scope.Joins s db collection)
    (fun {scope k before segment place target condition scope' k'} hbefore hstep havoids => by
      have hgrows := Context.grows_joinTarget _ _ _ _ hstep.joined
      obtain ⟨hled, h⟩ := hbefore (havoids.mono (by omega))
      exact ⟨hled.joinStep hpath hstep, h.joinStep hinjective hc havoids hpath hled hstep⟩)
    (fun _ => ⟨hled, h⟩) hjoin havoids
  exact hboth.2

/-- The joins of a filter. -/
theorem joinFilter {inner several : Bool} {f : Filter} (hinjective : Function.Injective names)
    (hc : s.collection? collection = some declared) (havoids : s.AvoidsAliases names k')
    (hf : f.IsUnfolded) (hled : scope.hops.Led (s.context options names) collection k)
    (h : scope.Joins s db collection)
    (hjoin : ((s.context options names).joinFilter inner collection [] scope f).Gives k
      (scope', several) k') :
    scope'.Joins s db collection := by
  rw [Context.joinFilter_eq] at hjoin
  have hboth := Context.joinPaths_keeps
    (P := fun scope k => s.AvoidsAliases names k →
      scope.hops.Led (s.context options names) collection k ∧ scope.Joins s db collection)
    (fun path hmem {scope scope' several k k'} hbefore hjoin havoids => by
      have hpath := Context.isPath_of_mem_filterPaths isPath_nil hf path hmem
      obtain ⟨hled, h⟩ := hbefore (havoids.mono (Context.grows_joinPath _ _ _ hjoin))
      exact ⟨hled.joinPath hpath hjoin, h.joinPath hinjective hc havoids hpath hled hjoin⟩)
    (fun _ => ⟨hled, h⟩) hjoin havoids
  exact hboth.2

/-- The parts of a request besides its search and its filter. -/
theorem prepares {paths : List (List String)} {start : Scope} {k₀ : Nat}
    (hinjective : Function.Injective names) (hc : s.collection? collection = some declared)
    (havoids : s.AvoidsAliases names k) (hpaths : ∀ path ∈ paths, IsPath path)
    (hled : start.hops.Led (s.context options names) collection k₀)
    (h : start.Joins s db collection)
    (hprepares : (s.context options names).Prepares collection paths start k₀ scope k) :
    scope.Joins s db collection := by
  induction hprepares with
  | refl => exact h
  | @join scope next path several k k' hbefore hpath hjoin ih =>
    have hgrows := Context.grows_joinPath _ _ _ hjoin
    exact (ih (havoids.mono hgrows)).joinPath hinjective hc havoids (hpaths path hpath)
      (hbefore.led hpaths hled) hjoin
  | rest _ hjoins _ hle ih => exact (ih (havoids.mono hle)).congr hjoins rfl

end Scope.Joins

/-! ## Selected rows -/

/-- The rows of a collection beside which the joins of a statement put rows that meet its
condition. -/
def Sql.Query.selected (q : Query) (db : Database E) (collection : String) : List (Row E) :=
  (db collection).filter fun row =>
    (joinTables db [(collection, row)] q.joins).any fun tables => meets db tables q.condition

theorem Sql.Query.mem_selected {q : Query} {row : Row E} :
    row ∈ q.selected db collection ↔ row ∈ db collection ∧
      ∃ tables ∈ joinTables db [(collection, row)] q.joins, meets db tables q.condition = true := by
  rw [selected, List.mem_filter, List.any_eq_true]

/-- A statement of whole rows returns those that it selects. -/
theorem mem_output_iff_selected {q : Query} {hops : Hops} {cells : List (Cell E)}
    (h : Scope.Joins s db collection ⟨q, hops⟩)
    (hitems : q.items = [⟨.allColumns (some collection), none⟩])
    (hsource : q.source = some ⟨collection, none⟩) (hgroups : q.groups = []) :
    cells ∈ q.output db [] ↔ ∃ row ∈ q.selected db collection, cells = [.row row] := by
  obtain ⟨items, source, joins, condition, groups, orders, window⟩ := q
  obtain rfl : items = [⟨.allColumns (some collection), none⟩] := hitems
  obtain rfl : source = some ⟨collection, none⟩ := hsource
  obtain rfl : groups = [] := hgroups
  -- the cell is that of the collection, which every join leaves as it is
  have hcell (row : Row E) (tables : Tables E)
      (htables : tables ∈ joinTables db [(collection, row)] joins) :
      [Item.cell db [] tables ⟨.allColumns (some collection), none⟩] = [.row row] :=
    congrArg (fun found => [Cell.row found]) (h.fits [] row tables htables).1
  rw [output_select db [] rfl]
  simp only [Query.mem_selected, List.mem_map, List.mem_filter, List.mem_flatMap]
  constructor
  · rintro ⟨tables, ⟨⟨row, hrow, htables⟩, hmeets⟩, rfl⟩
    exact ⟨row, ⟨hrow, tables, htables, hmeets⟩, hcell row tables htables⟩
  · rintro ⟨row, ⟨hrow, tables, htables, hmeets⟩, rfl⟩
    exact ⟨tables, ⟨⟨row, hrow, htables⟩, hmeets⟩, hcell row tables htables⟩

/-- Statements whose conditions are met by the same rows side by side select the same rows. -/
theorem selected_eq_of_meets {q q' : Query} {hops hops' : Hops}
    (h : Scope.Joins s db collection ⟨q, hops⟩) (h' : Scope.Joins s db collection ⟨q', hops'⟩)
    (hmeets : ∀ tables tables' : Tables E, SameRows collection hops hops' tables tables' →
      meets db tables q.condition = meets db tables' q'.condition) :
    q.selected db collection = q'.selected db collection := by
  refine List.filter_congr fun row _ => ?_
  rw [Bool.eq_iff_iff, List.any_eq_true, List.any_eq_true]
  constructor
  · rintro ⟨tables, htables, htrue⟩
    obtain ⟨rfl, hfits⟩ := h.fits [] row tables htables
    obtain ⟨tables', htables', hsame⟩ := h'.follows ⟨q, hops⟩ tables hfits []
    exact ⟨tables', htables', (hmeets tables tables' hsame.symm).symm.trans htrue⟩
  · rintro ⟨tables', htables', htrue⟩
    obtain ⟨rfl, hfits⟩ := h'.fits [] row tables' htables'
    obtain ⟨tables, htables, hsame⟩ := h.follows ⟨q', hops'⟩ tables' hfits []
    exact ⟨tables, htables, (hmeets tables tables' hsame).trans htrue⟩

end JsonSql
