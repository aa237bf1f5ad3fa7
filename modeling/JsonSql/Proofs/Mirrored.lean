import JsonSql.Proofs.Agreement
import JsonSql.Proofs.Concealed

set_option autoImplicit false

/-!
# Rows that differ in hidden values only

Two databases that differ in nothing but values of columns that are not shown, all of them known and
not empty.  Where the keys of links are shown, the joins of a statement put rows beside
corresponding rows that correspond again, table by table (`Scope.Mirrored`).
-/

namespace JsonSql

open JsonSql.Calendar
open JsonSql.Sql

variable {E : Engine} {s : Schema} {options : Options} {names : Nat → String}
  {shown : String → String → Prop} {db db' : Database E} {tables tables' : Tables E}
  {collection : String}

/-! ## Rows -/

/-- A value that is neither null nor the empty text. -/
def Sql.Engine.IsFilled (E : Engine) (v : E.Value) : Prop :=
  v.isSome ∧ E.same v (E.text "") ≠ .yes

/-- Such values compare alike with the empty text. -/
theorem Sql.Engine.IsFilled.same_empty {v w : E.Value} (hv : E.IsFilled v) (hw : E.IsFilled w) :
    E.same v (E.text "") = E.same w (E.text "") := by
  cases hempty : E.text "" with
  | none => rw [E.same_symm, Engine.same_none, E.same_symm, Engine.same_none]
  | some empty =>
    have hknown : (E.text "").isSome := by rw [hempty]; rfl
    have hleft := (E.same_ne_yes_iff hv.1 hknown).mp hv.2
    have hright := (E.same_ne_yes_iff hw.1 hknown).mp hw.2
    rw [← hempty, hleft, hright]

/-- Two rows of a collection differ at most in columns that are not shown, where neither has null or
the empty text. -/
def AlikeRows (shown : String → String → Prop) (collection : String) (row other : Row E) : Prop :=
  ∀ column, row column = other column ∨
    ¬shown collection column ∧ E.IsFilled (row column) ∧ E.IsFilled (other column)

/-- The rows of each table correspond one to one. -/
def AlikeDatabases (shown : String → String → Prop) (db db' : Database E) : Prop :=
  ∀ collection, List.Forall₂ (AlikeRows shown collection) (db collection) (db' collection)

namespace AlikeRows

theorem refl (row : Row E) : AlikeRows shown collection row row :=
  fun _ => .inl rfl

theorem eq_of_shown {row other : Row E} (h : AlikeRows shown collection row other)
    {column : String} (hcolumn : shown collection column) : row column = other column :=
  (h column).resolve_right fun hhidden => hhidden.1 hcolumn

/-- A column that is shown has the same value in tables that stand for such rows. -/
theorem value_of_eq {table : String}
    (h : AlikeRows shown collection (rowOf tables table) (rowOf tables' table)) {column : String}
    (hcolumn : shown collection column) :
    (Expr.of table column).value db [] tables = (Expr.of table column).value db' [] tables' := by
  rw [value_of, value_of, h.eq_of_shown hcolumn]

end AlikeRows

/-- Whether there is a value is the same of hidden values. -/
theorem truthOn_eq_of_isBlind {op : Operator} {d : Dialect} {column e : Expr}
    {values : List Literal} {kept : Bool} (hblind : op.isBlind = true)
    (he : op.predicate? d column values kept = .ok (some e))
    (hvalue : column.value db [] tables = column.value db' [] tables' ∨
      E.IsFilled (column.value db [] tables) ∧ E.IsFilled (column.value db' [] tables')) :
    e.truthOn db tables = e.truthOn db' tables' := by
  rcases hvalue with hsame | ⟨hleft, hright⟩
  · exact (Context.isPredicate_of_predicate? he).truthOn_eq hsame
  · cases op with
    | null negated =>
      cases he
      rw [truthOn_isNull, truthOn_isNull, Option.isNone_eq_false_iff.mpr hleft.1,
        Option.isNone_eq_false_iff.mpr hright.1]
    | empty negated =>
      cases he
      rw [truthOn_binary, truthOn_binary, value_string, value_string]
      split
      · rw [Engine.binary, Engine.binary, hleft.same_empty hright]
      · rw [Engine.binary, Engine.binary, hleft.same_empty hright]
    | _ => cases hblind

/-! ## Links -/

/-- The keys of a link from a collection are shown. -/
def Link.KeysShown (s : Schema) (shown : String → String → Prop) (owner : String) (link : Link) :
    Prop :=
  ∀ collection column, link.HasKey s owner collection column → shown collection column

/-- The keys of the links that are joined along a path are shown. -/
def Context.KeysShownAlong (c : Context) (s : Schema) (shown : String → String → Prop)
    (collection : String) (path : List String) : Prop :=
  ∀ before segment owner, before ++ [segment] <+: path.dropLast →
    c.destination? collection before = some owner → (c.link owner segment).KeysShown s shown owner

theorem truthOn_equals_eq {left right : Expr}
    (hleft : left.value db [] tables = left.value db' [] tables')
    (hright : right.value db [] tables = right.value db' [] tables') :
    (Expr.equals left right).truthOn db tables = (Expr.equals left right).truthOn db' tables' := by
  rw [truthOn_equals, truthOn_equals, hleft, hright]

theorem truthOn_refersTo_eq {table column field target : String} {key : Expr}
    (hcolumn : (Expr.of table column).value db [] tables =
      (Expr.of table column).value db' [] tables')
    (hfield : (Expr.of table field).value db [] tables =
      (Expr.of table field).value db' [] tables')
    (hkey : key.value db [] tables = key.value db' [] tables') :
    (refersTo table column field target key).truthOn db tables =
      (refersTo table column field target key).truthOn db' tables' := by
  rw [refersTo, truthOn_both, truthOn_both, truthOn_equals_eq hcolumn rfl,
    truthOn_equals_eq hfield (by rw [value_cast, value_cast, hkey])]

/-- Whether a row is joined to another depends on keys only. -/
theorem truthOn_joinTarget_eq {place : Place} {segment name target : String} {link : Link}
    {condition : Expr} {k k' : Nat} (hstarts : link.StartsAt place.collection)
    (hkeys : link.KeysShown s shown place.collection)
    (hplace : AlikeRows shown place.collection (rowOf tables place.table)
      (rowOf tables' place.table))
    (htarget : AlikeRows shown target (rowOf tables name) (rowOf tables' name))
    (h : ((s.context options names).joinTarget place segment name link).Gives k
      (target, condition) k') :
    condition.truthOn db tables = condition.truthOn db' tables' := by
  cases link with
  | none => exact absurd h Compile.not_gives_throw
  | manyToOne r =>
    have hcollection : r.collection = place.collection := hstarts
    unfold Context.joinTarget at h
    dsimp only at h
    split at h
    · exact absurd h Compile.not_gives_throw
    · next found hrelated =>
      simp only [Compile.gives_bind, Compile.gives_pure] at h
      obtain ⟨primary, k₁, hprimary, hresult, -⟩ := h
      obtain ⟨-, -, -, rfl, -⟩ := primary_context_gives hprimary
      cases hresult
      have hfield : shown place.collection r.field := hcollection ▸ hkeys _ _ (.field rfl)
      exact truthOn_equals_eq (hplace.value_of_eq hfield)
        (htarget.value_of_eq (hkeys _ _ (.primary hrelated)))
  | manyToAny r scope =>
    have hcollection : r.collection = place.collection := hstarts
    unfold Context.joinTarget at h
    dsimp only at h
    split at h
    · exact absurd h Compile.not_gives_throw
    · next found =>
      split at h
      · simp only [Compile.gives_bind, Compile.gives_pure] at h
        obtain ⟨column, k₁, hcolumn, primary, k₂, hprimary, hresult, -⟩ := h
        obtain ⟨hdiscriminator, -⟩ := discriminator_gives.mp hcolumn
        obtain ⟨-, -, -, rfl, -⟩ := primary_context_gives hprimary
        cases hresult
        have hfield : shown place.collection r.field := hcollection ▸ hkeys _ _ (.field rfl)
        have hcolumn : shown place.collection column :=
          hcollection ▸ hkeys _ _ (.discriminator rfl hdiscriminator)
        exact truthOn_refersTo_eq (hplace.value_of_eq hcolumn) (hplace.value_of_eq hfield)
          (htarget.value_of_eq (hkeys _ _ (.primary rfl)))
      · exact absurd h Compile.not_gives_throw
  | oneToMany r =>
    rw [Context.joinTarget] at h
    simp only [Compile.gives_bind, Compile.gives_pure] at h
    obtain ⟨primary, k₁, hprimary, hresult, -⟩ := h
    obtain ⟨-, -, -, rfl, -⟩ := primary_context_gives hprimary
    cases hresult
    exact truthOn_equals_eq (hplace.value_of_eq (hkeys _ _ (.primary rfl)))
      (htarget.value_of_eq (hkeys _ _ (.field rfl)))
  | oneToAny r =>
    rw [Context.joinTarget] at h
    simp only [Compile.gives_bind, Compile.gives_pure] at h
    obtain ⟨column, k₁, hcolumn, primary, k₂, hprimary, hresult, -⟩ := h
    obtain ⟨hdiscriminator, -⟩ := discriminator_gives.mp hcolumn
    obtain ⟨-, -, -, rfl, -⟩ := primary_context_gives hprimary
    cases hresult
    exact truthOn_refersTo_eq (htarget.value_of_eq (hkeys _ _ (.discriminator rfl hdiscriminator)))
      (htarget.value_of_eq (hkeys _ _ (.field rfl)))
      (hplace.value_of_eq (hkeys _ _ (.primary rfl)))

/-! ## Tables in scope -/

/-- The tables in scope correspond: the collection and every join that is recorded stand for rows
that do. -/
structure Twins (shown : String → String → Prop) (collection : String) (hops : Hops)
    (tables tables' : Tables E) : Prop where
  root : AlikeRows shown collection (rowOf tables collection) (rowOf tables' collection)
  hop : ∀ path hop, hops.get? path = some hop →
    AlikeRows shown hop.collection (rowOf tables hop.name) (rowOf tables' hop.name)

namespace Twins

variable {hops : Hops}

/-- Fewer joins recorded. -/
theorem mono {hops' : Hops} (h : Twins shown collection hops' tables tables')
    (hkeeps : Context.Keeps hops hops') : Twins shown collection hops tables tables' :=
  ⟨h.root, fun path hop hfound => h.hop path hop (hkeeps path hop hfound)⟩

theorem reached {scope : Scope} {before : List String} {place : Place}
    (h : Twins shown collection scope.hops tables tables')
    (hreach : scope.Reaches collection before place) :
    AlikeRows shown place.collection (rowOf tables place.table) (rowOf tables' place.table) := by
  cases hreach with
  | root => exact h.root
  | hop hfound => exact h.hop _ _ hfound

theorem placeOf {parents : List String} {path : String} {place : Place}
    (h : Twins shown collection hops tables tables')
    (hplace : Context.placeOf hops collection parents path = .ok place) :
    AlikeRows shown place.collection (rowOf tables place.table) (rowOf tables' place.table) := by
  rcases Context.placeOf_eq_ok hplace with ⟨-, rfl⟩ | ⟨-, hop, hfound, rfl⟩
  · exact h.root
  · exact h.hop _ hop hfound

theorem asked {c : Context} {parents : List String} {key owner table : String} {link : Link}
    (h : Twins shown collection hops tables tables')
    (hasked : c.IsAsked hops collection parents key owner table link) :
    AlikeRows shown owner (rowOf tables table) (rowOf tables' table) := by
  rcases hasked.place with ⟨-, howner, htable, -⟩ | ⟨-, hop, hfound, howner, htable, -⟩
  · rw [howner, htable]
    exact h.root
  · rw [howner, htable]
    exact h.hop _ hop hfound

/-- One more pair of rows, under a name that no other table goes by. -/
theorem insert {path : List String} {name target : String} {row row' : Row E}
    (h : Twins shown collection hops tables tables') (hroot : collection ≠ name)
    (hother : ∀ path hop, hops.get? path = some hop → hop.name ≠ name)
    (hrow : AlikeRows shown target row row') :
    Twins shown collection (hops.insert path ⟨name, target⟩) ((name, row) :: tables)
      ((name, row') :: tables') := by
  refine ⟨?_, fun other hop hfound => ?_⟩
  · rw [rowOf_cons_of_ne hroot, rowOf_cons_of_ne hroot]
    exact h.root
  · rcases Hops.get?_insert_eq_some hfound with ⟨-, rfl⟩ | ⟨-, hold⟩
    · rw [rowOf_cons_self, rowOf_cons_self]
      exact hrow
    · have hne := hother other hop hold
      rw [rowOf_cons_of_ne hne, rowOf_cons_of_ne hne]
      exact h.hop other hop hold

end Twins

/-! ## Joins -/

theorem forall₂_orOne {α β : Type} {R : α → β → Prop} {item : α} {other : β} {items : List α}
    {others : List β} (h : List.Forall₂ R items others) (hnone : R item other) :
    List.Forall₂ R (orOne item items) (orOne other others) := by
  cases h with
  | nil => exact .cons hnone .nil
  | cons hfirst hrest => exact .cons hfirst hrest

/-- Rows of a table that correspond meet a condition alike. -/
theorem AlikeDatabases.forall₂_filter (hdb : AlikeDatabases shown db db') {collection name : String}
    {condition : Expr}
    (hcondition : ∀ row row', AlikeRows shown collection row row' →
      condition.truthOn db ((name, row) :: tables) =
        condition.truthOn db' ((name, row') :: tables')) :
    List.Forall₂ (AlikeRows shown collection)
      ((db collection).filter fun row => meets db ((name, row) :: tables) (some condition))
      ((db' collection).filter fun row => meets db' ((name, row) :: tables') (some condition)) := by
  refine List.rel_filter (fun row row' hrow => ?_) (hdb collection)
  dsimp only
  rw [meets_eq_true, meets_eq_true, hcondition row row' hrow]

/-- The joins of a statement put rows beside rows that correspond which correspond as well. -/
def Scope.Mirrored (shown : String → String → Prop) (db db' : Database E) (collection : String)
    (scope : Scope) : Prop :=
  ∀ (outer outer' : Tables E) (row row' : Row E), AlikeRows shown collection row row' →
    List.Forall₂ (Twins shown collection scope.hops)
      (joinTables db ((collection, row) :: outer) scope.query.joins)
      (joinTables db' ((collection, row') :: outer') scope.query.joins)

namespace Scope.Mirrored

variable {scope scope' : Scope} {declared : Collection} {k k' : Nat}

theorem ofNil {q : Query} (hjoins : q.joins = []) :
    Scope.Mirrored shown db db' collection { query := q } := by
  intro outer outer' row row' hrow
  rw [hjoins, joinTables_nil, joinTables_nil]
  refine .cons ⟨?_, fun path hop hfound => (by cases hfound)⟩ .nil
  rw [rowOf_cons_self, rowOf_cons_self]
  exact hrow

/-- The joined rows of all rows of the collection. -/
theorem rows (h : scope.Mirrored shown db db' collection) (hdb : AlikeDatabases shown db db')
    (outer outer' : Tables E) :
    List.Forall₂ (Twins shown collection scope.hops)
      ((db collection).flatMap fun row =>
        joinTables db ((collection, row) :: outer) scope.query.joins)
      ((db' collection).flatMap fun row =>
        joinTables db' ((collection, row) :: outer') scope.query.joins) :=
  List.rel_flatMap (hdb collection) fun row row' hrow => h outer outer' row row' hrow

/-- One more join, under a new alias. -/
theorem joinStep {path before : List String} {segment target : String} {place : Place}
    {condition : Expr} (hinjective : Function.Injective names) (hdb : AlikeDatabases shown db db')
    (hc : s.collection? collection = some declared) (havoids : s.AvoidsAliases names k')
    (hled : scope.hops.Led (s.context options names) collection k)
    (hkeys : ((s.context options names).link place.collection segment).KeysShown s shown
      place.collection)
    (h : scope.Mirrored shown db db' collection)
    (hstep : JoinStep (s.context options names) collection path scope k before segment place
      target condition scope' k') :
    scope'.Mirrored shown db db' collection := by
  obtain ⟨-, hreach, -, hjoined, rfl⟩ := hstep
  have hgrows := Context.grows_joinTarget _ _ _ _ hjoined
  -- the new alias hides no table
  have hroot : collection ≠ names k := havoids.ne hgrows hc
  have hother : ∀ path hop, scope.hops.get? path = some hop → hop.name ≠ names k :=
    fun path hop hfound => hled.name_ne hinjective hfound
  have hplace : place.table ≠ names k := by
    cases hreach with
    | root => exact hroot
    | hop hfound => exact hother _ _ hfound
  intro outer outer' row row' hrow
  rw [Query.addJoin_joins, joinTables_append, joinTables_append]
  refine List.rel_flatMap (h outer outer' row row' hrow) fun tables tables' htwins => ?_
  have hcondition (here there : Row E) (halike : AlikeRows shown target here there) :
      condition.truthOn db ((names k, here) :: tables) =
        condition.truthOn db' ((names k, there) :: tables') := by
    refine truthOn_joinTarget_eq (link_startsAt _ _ _) hkeys ?_ ?_ hjoined
    · rw [rowOf_cons_of_ne hplace, rowOf_cons_of_ne hplace]
      exact htwins.reached hreach
    · rw [Schema.context_names, rowOf_cons_self, rowOf_cons_self]
      exact halike
  rw [joinTables_singleton, joinTables_singleton, join_tables_eq, join_tables_eq,
    List.forall₂_map_left_iff, List.forall₂_map_right_iff]
  refine (forall₂_orOne (hdb.forall₂_filter hcondition) (.refl _)).imp fun here there halike => ?_
  exact htwins.insert hroot hother halike

/-- Joins along a path whose links have shown keys. -/
theorem joinPath {inner several : Bool} {path : List String}
    (hinjective : Function.Injective names) (hdb : AlikeDatabases shown db db')
    (hc : s.collection? collection = some declared) (havoids : s.AvoidsAliases names k')
    (hpath : IsPath path) (hled : scope.hops.Led (s.context options names) collection k)
    (hkeys : (s.context options names).KeysShownAlong s shown collection path)
    (h : scope.Mirrored shown db db' collection)
    (hjoin : ((s.context options names).joinPath inner collection scope path).Gives k
      (scope', several) k') :
    scope'.Mirrored shown db db' collection := by
  have hboth := Context.joinPath_keeps
    (P := fun scope k => s.AvoidsAliases names k →
      scope.hops.Led (s.context options names) collection k ∧
        scope.Mirrored shown db db' collection)
    (fun {scope k before segment place target condition scope' k'} hbefore hstep havoids => by
      have hgrows := Context.grows_joinTarget _ _ _ _ hstep.joined
      obtain ⟨hled, h⟩ := hbefore (havoids.mono (by omega))
      have hreached := hled.reached
        (fun s hs => hpath.ofPrefix hstep.along s (List.mem_append_left _ hs)) hstep.reached
      exact ⟨hled.joinStep hpath hstep,
        h.joinStep hinjective hdb hc havoids hled (hkeys _ _ _ hstep.along hreached) hstep⟩)
    (fun _ => ⟨hled, h⟩) hjoin havoids
  exact hboth.2

/-- The joins of a filter whose links have shown keys. -/
theorem joinFilter {inner several : Bool} {f : Filter} (hinjective : Function.Injective names)
    (hdb : AlikeDatabases shown db db') (hc : s.collection? collection = some declared)
    (havoids : s.AvoidsAliases names k') (hf : f.IsUnfolded)
    (hled : scope.hops.Led (s.context options names) collection k)
    (hkeys : ∀ path ∈ (s.context options names).filterPaths collection [] f,
      (s.context options names).KeysShownAlong s shown collection path)
    (h : scope.Mirrored shown db db' collection)
    (hjoin : ((s.context options names).joinFilter inner collection [] scope f).Gives k
      (scope', several) k') :
    scope'.Mirrored shown db db' collection := by
  rw [Context.joinFilter_eq] at hjoin
  have hboth := Context.joinPaths_keeps
    (P := fun scope k => s.AvoidsAliases names k →
      scope.hops.Led (s.context options names) collection k ∧
        scope.Mirrored shown db db' collection)
    (fun path hmem {scope scope' several k k'} hbefore hjoin havoids => by
      have hpath := Context.isPath_of_mem_filterPaths isPath_nil hf path hmem
      obtain ⟨hled, h⟩ := hbefore (havoids.mono (Context.grows_joinPath _ _ _ hjoin))
      exact ⟨hled.joinPath hpath hjoin,
        h.joinPath hinjective hdb hc havoids hpath hled (hkeys path hmem) hjoin⟩)
    (fun _ => ⟨hled, h⟩) hjoin havoids
  exact hboth.2

end Scope.Mirrored

end JsonSql
