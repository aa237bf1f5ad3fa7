import JsonSql.Proofs.Carried
import JsonSql.Proofs.Lockstep
import JsonSql.Proofs.Portable
import JsonSql.Proofs.Relabelled
import JsonSql.Proofs.Walks

set_option autoImplicit false

/-!
# Two compilations of one request

A request compiled twice, with other aliases and for another dialect, runs in lockstep.  Both
statements have the same joins but for the labels, the same window and parts of the same number,
and where the dialects say alike what the request asks, one is the other under other labels
(`inStep_apply`).  No decision of the compilation looks at an alias, and only literals, predicates
and functions of fields look at the dialect.
-/

namespace JsonSql

open JsonSql.Sql
open Compile (InStep inStep_pure inStep_throw inStep_lift inStep_refl inStep_map_self
  inStep_foldlM inStep_mapM)

variable {exact : Prop} {labels : String → String}

/-! ## Places and records of joins -/

/-- A place whose table goes by another label. -/
def Place.relabelled (labels : String → String) (place : Place) : Place :=
  { place with table := labels place.table }

/-- A join under another label. -/
def Hop.relabelled (labels : String → String) (hop : Hop) : Hop :=
  { hop with name := labels hop.name }

/-- The joins of a statement under other labels. -/
def Hops.relabelled (labels : String → String) (hops : Hops) : Hops :=
  ⟨hops.entries.map fun entry => (entry.1, entry.2.relabelled labels)⟩

theorem Place.relabelled_root {collection : String} (h : labels collection = collection) :
    (Place.root collection).relabelled labels = .root collection := by
  rw [relabelled, root, h]

theorem Hops.relabelled_get? (hops : Hops) (path : List String) :
    (hops.relabelled labels).get? path = (hops.get? path).map (Hop.relabelled labels) := by
  obtain ⟨entries⟩ := hops
  unfold Hops.relabelled Hops.get?
  dsimp only
  induction entries with
  | nil => rfl
  | cons entry rest ih =>
    rw [List.map_cons, member?, member?]
    split
    · rfl
    · exact ih

theorem Hops.relabelled_insert (hops : Hops) (path : List String) (hop : Hop) :
    (hops.insert path hop).relabelled labels =
      (hops.relabelled labels).insert path (hop.relabelled labels) := by
  obtain ⟨entries⟩ := hops
  unfold Hops.relabelled Hops.insert
  refine congrArg Hops.mk ?_
  dsimp only
  induction entries with
  | nil => rfl
  | cons entry rest ih =>
    rw [putMember, List.map_cons, putMember]
    split
    · rfl
    · rw [List.map_cons, ih]

/-! ## Statements -/

/-- Statements with the same joins but for the labels, the same window and as many parts of each
kind; if the comparison is exact, one is the other under other labels. -/
structure Sql.Query.Alike (exact : Prop) (labels : String → String) (q q' : Query) : Prop where
  joins : q'.joins = q.joins.map (Join.relabelled labels)
  window : q'.window = q.window
  items : q'.items.length = q.items.length
  groups : q'.groups.length = q.groups.length
  orders : q'.orders.length = q.orders.length
  whole : exact → q' = q.relabelled labels

namespace Sql.Query.Alike

variable {q q' : Query} {e e' : Expr}

theorem addJoin (h : q.Alike exact labels q') (target : TableRef) (condition : Expr) :
    (q.addJoin target condition).Alike exact labels
      (q'.addJoin (target.relabelled labels) (condition.relabelled labels)) := by
  refine ⟨?_, h.window, h.items, h.groups, h.orders, fun hexact => ?_⟩
  · rw [Query.addJoin_joins, Query.addJoin_joins, h.joins, List.map_append, List.map_singleton,
      Join.relabelled]
  · rw [h.whole hexact, Query.relabelled_eq, Query.relabelled_eq]
    simp [Query.addJoin, Join.relabelled]

theorem addItem (h : q.Alike exact labels q') (he : exact → e' = e.relabelled labels)
    (label : Option String) :
    (q.addItem ⟨e, label⟩).Alike exact labels (q'.addItem ⟨e', label⟩) := by
  refine ⟨h.joins, h.window, ?_, h.groups, h.orders, fun hexact => ?_⟩
  · simp [Query.addItem, h.items]
  · rw [h.whole hexact, he hexact, Query.relabelled_eq, Query.relabelled_eq]
    simp [Query.addItem, Item.relabelled]

theorem addGroup (h : q.Alike exact labels q') (he : exact → e' = e.relabelled labels) :
    (q.addGroup e).Alike exact labels (q'.addGroup e') := by
  refine ⟨h.joins, h.window, h.items, ?_, h.orders, fun hexact => ?_⟩
  · simp [Query.addGroup, h.groups]
  · rw [h.whole hexact, he hexact, Query.relabelled_eq, Query.relabelled_eq]
    simp [Query.addGroup]

theorem addOrder (h : q.Alike exact labels q') (he : exact → e' = e.relabelled labels)
    (direction : Direction) :
    (q.addOrder ⟨e, direction⟩).Alike exact labels (q'.addOrder ⟨e', direction⟩) := by
  refine ⟨h.joins, h.window, h.items, h.groups, ?_, fun hexact => ?_⟩
  · simp [Query.addOrder, h.orders]
  · rw [h.whole hexact, he hexact, Query.relabelled_eq, Query.relabelled_eq]
    simp [Query.addOrder, OrderItem.relabelled]

theorem addCondition (h : q.Alike exact labels q') (he : exact → e' = e.relabelled labels) :
    (q.addCondition e).Alike exact labels (q'.addCondition e') := by
  refine ⟨h.joins, h.window, h.items, h.groups, h.orders, fun hexact => ?_⟩
  rw [h.whole hexact, he hexact, Query.relabelled_eq, Query.relabelled_eq]
  unfold Query.addCondition
  dsimp only
  cases q.condition <;> simp

/-- A condition that one of the statements may lack. -/
theorem addCondition? (h : q.Alike exact labels q') {e? e'? : Option Expr}
    (he : exact → e'? = e?.map (Expr.relabelled labels)) :
    (e?.elim q q.addCondition).Alike exact labels (e'?.elim q' q'.addCondition) := by
  cases e? with
  | none =>
    cases e'? with
    | none => exact h
    | some e' => exact ⟨h.joins, h.window, h.items, h.groups, h.orders, fun hexact =>
        absurd (he hexact) (Option.some_ne_none e')⟩
  | some e =>
    cases e'? with
    | none => exact ⟨h.joins, h.window, h.items, h.groups, h.orders, fun hexact =>
        absurd (he hexact).symm (Option.some_ne_none _)⟩
    | some e' => exact h.addCondition fun hexact => Option.some.inj (he hexact)

theorem narrow (h : q.Alike exact labels q') (w : Window) :
    (Query.narrow q w).Alike exact labels (Query.narrow q' w) := by
  have hwindow (o : Option Window) :
      { q with window := o }.Alike exact labels { q' with window := o } := by
    refine ⟨h.joins, rfl, h.items, h.groups, h.orders, fun hexact => ?_⟩
    rw [h.whole hexact, Query.relabelled_eq, Query.relabelled_eq]
  have hsame := h.window
  unfold Query.narrow
  cases w.limit <;> cases w.offset <;>
    simp only [Query.setLimit, Query.setOffset, hsame] <;> first
    | exact h
    | exact hwindow _

theorem addItems (h : q.Alike exact labels q') {items items' : List Item}
    (hitems : List.Forall₂ (fun item item' : Item => item'.label = item.label ∧
      (exact → item'.expr = item.expr.relabelled labels)) items items') :
    (items.foldl Query.addItem q).Alike exact labels (items'.foldl Query.addItem q') := by
  induction hitems generalizing q q' with
  | nil => exact h
  | @cons item item' rest rest' hitem _ ih =>
    obtain ⟨e, label⟩ := item
    obtain ⟨e', label'⟩ := item'
    obtain ⟨rfl, he⟩ := hitem
    exact ih (h.addItem he label')

/-- A statement that reads one table by its own name is the same under other labels, if it projects
that table. -/
theorem refl_of_relabelled (h : exact → q.relabelled labels = q) (hjoins : q.joins = []) :
    q.Alike exact labels q := by
  refine ⟨?_, rfl, rfl, rfl, rfl, fun hexact => (h hexact).symm⟩
  rw [hjoins, List.map_nil]

end Sql.Query.Alike

/-- Statements that are alike, with the same joins recorded. -/
structure Scope.Alike (exact : Prop) (labels : String → String) (scope scope' : Scope) : Prop where
  query : scope.query.Alike exact labels scope'.query
  hops : scope'.hops = scope.hops.relabelled labels

/-! ## Joins -/

/-- Labels that take each alias of one stream to that of another one, and leave the names of
collections as they are. -/
structure Schema.Respells (s : Schema) (labels : String → String) (names names' : Nat → String) :
    Prop where
  issued : ∀ k, names' k = labels (names k)
  fixed : ∀ collection info, s.provider.collection collection = .ok (some info) →
    labels collection = collection

namespace Context

variable {s : Schema} {options options' : Options} {names names' : Nat → String}
  {collection : String} {inner : Bool}

theorem inStep_collection (name : String) :
    InStep exact (fun info info' => info' = info ∧ s.provider.collection name = .ok (some info))
      ((s.context options names).collection name) ((s.context options' names').collection name) :=
  (inStep_refl _).gives.mono fun _ _ h => by
    obtain ⟨rfl, k, k', hgives⟩ := h
    exact ⟨rfl, (collection_gives.mp hgives).1⟩

theorem inStep_freshAlias (h : s.Respells labels names names') :
    InStep exact (fun name name' => name' = labels name) (s.context options names).freshAlias
      (s.context options' names').freshAlias :=
  fun k => .ok ⟨h.issued k, rfl⟩

/-- A link is joined under the same condition but for the labels. -/
theorem joinTarget_relabelled (place : Place) (segment table : String) (link : Link) :
    (s.context options' names').joinTarget (place.relabelled labels) segment (labels table) link =
      (fun found => (found.1, found.2.relabelled labels)) <$>
        (s.context options names).joinTarget place segment table link := by
  have hprimary (name : String) : (s.context options' names').primary name =
      (s.context options names).primary name := rfl
  cases link with
  | none => rfl
  | manyToOne r =>
    unfold joinTarget
    dsimp only
    split
    · rfl
    · simp [hprimary, Place.relabelled]
  | manyToAny r scope =>
    unfold joinTarget
    dsimp only
    split
    · rfl
    · split
      · simp [hprimary, Place.relabelled, relabelled_refersTo]
      · rfl
  | oneToMany r =>
    rw [joinTarget, joinTarget]
    simp [hprimary, Place.relabelled]
  | oneToAny r =>
    rw [joinTarget, joinTarget]
    simp [hprimary, Place.relabelled, relabelled_refersTo]

theorem inStep_join (h : s.Respells labels names names') {scope scope' : Scope}
    (hscope : scope.Alike exact labels scope') (path : List String) (place : Place)
    (segment : String) (link : Link) :
    InStep exact (fun joined joined' => joined.1.Alike exact labels joined'.1 ∧
        joined'.2 = joined.2.relabelled labels)
      ((s.context options names).join scope path place segment link)
      ((s.context options' names').join scope' path (place.relabelled labels) segment link) := by
  unfold join
  refine (inStep_freshAlias h).bind fun name name' hname => ?_
  rw [hname, joinTarget_relabelled]
  refine (inStep_map_self _ _).bind fun found found' hfound => ?_
  rw [hfound]
  refine inStep_pure ⟨⟨hscope.query.addJoin _ _, ?_⟩, rfl⟩
  rw [hscope.hops, Hops.relabelled_insert]
  rfl

/-- Joining along a path takes the same way in both. -/
theorem inStep_joinFrom (h : s.Respells labels names names') (segments : List String) :
    ∀ (before : List String) (place : Place) {scope scope' : Scope},
      scope.Alike exact labels scope' →
      InStep exact (fun joined joined' => joined.1.Alike exact labels joined'.1 ∧
          joined'.2 = joined.2)
        ((s.context options names).joinFrom inner place before scope segments)
        ((s.context options' names').joinFrom inner (place.relabelled labels) before scope'
          segments) := by
  induction segments with
  | nil => exact fun _ _ _ _ hscope => inStep_pure ⟨hscope, rfl⟩
  | cons segment segments ih =>
    intro before place scope scope' hscope
    cases segments with
    | nil => exact inStep_pure ⟨hscope, rfl⟩
    | cons next rest =>
      have hlink : (s.context options' names').link (place.relabelled labels).collection segment =
          (s.context options names).link place.collection segment := rfl
      have hroot : (place.relabelled labels).isRoot = place.isRoot := rfl
      rw [joinFrom_cons, joinFrom_cons, hlink, leadsOn_congr hroot, isJoined_congr hroot,
        hscope.hops, Hops.relabelled_get?]
      split
      · exact inStep_pure ⟨hscope, rfl⟩
      · cases scope.hops.get? (before ++ [segment]) with
        | some hop =>
          dsimp only [Option.map_some]
          split
          · exact ih _ hop.place hscope
          · exact inStep_pure ⟨hscope, rfl⟩
        | none =>
          dsimp only [Option.map_none]
          split
          · refine (inStep_join h hscope _ place segment _).bind
              fun ⟨joined, hop⟩ ⟨joined', hop'⟩ ⟨hjoined, hhop⟩ => ?_
            dsimp only at hhop ⊢
            rw [hhop]
            split
            · refine (ih _ hop.place hjoined).bind fun last last' hlast => ?_
              exact inStep_pure ⟨hlast.1, by rw [hlast.2]⟩
            · exact inStep_pure ⟨hjoined, rfl⟩
          · exact inStep_pure ⟨hscope, rfl⟩

theorem inStep_joinPath (h : s.Respells labels names names')
    (hroot : labels collection = collection) (path : List String) {scope scope' : Scope}
    (hscope : scope.Alike exact labels scope') :
    InStep exact (fun joined joined' => joined.1.Alike exact labels joined'.1 ∧
        joined'.2 = joined.2)
      ((s.context options names).joinPath inner collection scope path)
      ((s.context options' names').joinPath inner collection scope' path) := by
  have hjoined : InStep exact _ ((s.context options names).joinPath inner collection scope path)
      ((s.context options' names').joinFrom inner ((Place.root collection).relabelled labels)
        [] scope' path) := inStep_joinFrom h path [] (.root collection) hscope
  rwa [Place.relabelled_root hroot] at hjoined

theorem inStep_joinPaths (h : s.Respells labels names names')
    (hroot : labels collection = collection) (paths : List (List String)) :
    ∀ {scope scope' : Scope}, scope.Alike exact labels scope' →
      InStep exact (fun joined joined' => joined.1.Alike exact labels joined'.1 ∧
          joined'.2 = joined.2)
        ((s.context options names).joinPaths inner collection scope paths)
        ((s.context options' names').joinPaths inner collection scope' paths) := by
  induction paths with
  | nil => exact fun hscope => inStep_pure ⟨hscope, rfl⟩
  | cons path rest ih =>
    intro scope scope' hscope
    rw [joinPaths, joinPaths]
    refine (inStep_joinPath h hroot path hscope).bind fun first first' hfirst => ?_
    refine (ih hfirst.1).bind fun last last' hlast => ?_
    exact inStep_pure ⟨hlast.1, by rw [hfirst.2, hlast.2]⟩

theorem inStep_joinFilter (h : s.Respells labels names names')
    (hroot : labels collection = collection) (parents : List String) (f : Filter)
    {scope scope' : Scope} (hscope : scope.Alike exact labels scope') :
    InStep exact (fun joined joined' => joined.1.Alike exact labels joined'.1 ∧
        joined'.2 = joined.2)
      ((s.context options names).joinFilter inner collection parents scope f)
      ((s.context options' names').joinFilter inner collection parents scope' f) := by
  rw [joinFilter_eq, joinFilter_eq,
    filterPaths_congr (s.relations_context options' options names' names)]
  exact inStep_joinPaths h hroot _ hscope

/-! ## Columns -/

theorem placeOf_relabelled (hroot : labels collection = collection) (hops : Hops)
    (parents : List String) (shown : String) :
    placeOf (hops.relabelled labels) collection parents shown =
      (placeOf hops collection parents shown).map (Place.relabelled labels) := by
  unfold placeOf
  split
  · exact congrArg Except.ok (Place.relabelled_root hroot).symm
  · rw [Hops.relabelled_get?]
    cases hops.get? parents <;> rfl

theorem inStep_countRows? (h : s.Respells labels names names') (owner table : String)
    (link : Link) :
    InStep exact (fun e? e'? => e'? = e?.map (Expr.relabelled labels))
      ((s.context options names).countRows? owner table link)
      ((s.context options' names').countRows? owner (labels table) link) := by
  unfold countRows?
  refine (inStep_refl _).bind fun primary primary' hprimary => ?_
  refine (inStep_freshAlias h).bind fun name name' hname => ?_
  rw [← hprimary, hname]
  cases link with
  | none | manyToOne _ | manyToAny _ _ => exact inStep_pure rfl
  | oneToMany r =>
    refine inStep_pure ?_
    simp [Query.relabelled_eq, Item.relabelled, TableRef.relabelled]
  | oneToAny r =>
    dsimp only
    cases r.info.discriminator with
    | none => exact inStep_pure rfl
    | some column =>
      refine inStep_pure ?_
      simp [Query.relabelled_eq, Item.relabelled, TableRef.relabelled, relabelled_refersTo]

/-- A function of a field of a type is the same but for the labels where the dialects say it
alike. -/
theorem inStep_applyFunction (h : s.Respells labels names names') (place : Place)
    (name path field : String) {type : FieldType}
    (hsame : exact → options.dialect = options'.dialect ∨ ∀ function,
      FieldFunction.ofName? name = some function → function.IsPortable type) :
    InStep exact (fun e e' => exact → e' = e.relabelled labels)
      ((s.context options names).applyFunction place name path field type)
      ((s.context options' names').applyFunction (place.relabelled labels) name path field
        type) := by
  unfold applyFunction
  dsimp only
  split
  · exact inStep_throw _
  · next part hpart =>
    unfold partOf
    cases hkind : type.dateKind? with
    | none => exact inStep_throw _
    | some kind =>
      dsimp only
      cases isPartOf part kind with
      | false => exact inStep_throw _
      | true =>
        refine inStep_pure fun hexact => ?_
        rcases hsame hexact with hdialect | hportable
        · rw [dialect, dialect, Schema.context_options, Schema.context_options, hdialect,
            relabelled_datePart, relabelled_of]
          rfl
        · cases hkind.symm.trans (hportable _ hpart)
  · next hcount =>
    split
    · next hjson =>
      refine inStep_lift ?_
      by_cases hexact : exact
      · rcases hsame hexact with hdialect | hportable
        · have hlength : (s.context options' names').jsonLength
                (.of (place.relabelled labels).table field) =
              ((s.context options names).jsonLength (.of place.table field)).map
                (Expr.relabelled labels) := by
            unfold jsonLength dialect
            rw [Schema.context_options, Schema.context_options, hdialect, Place.relabelled,
              ← relabelled_of, relabelled_jsonArrayLength?]
            cases options'.dialect.jsonArrayLength? (.of place.table field) <;> rfl
          rw [hlength]
          exact (Except.Matches.map_self _ _).mono fun _ _ he _ => he
        · exact absurd hjson (hportable _ hcount)
      · -- one dialect may lack what the other one has
        exact Except.Matches.of_loose hexact fun _ _ _ _ hexact' => absurd hexact' hexact
    · refine (inStep_countRows? h _ _ _).bind fun e? e'? he => ?_
      rw [he]
      cases e? with
      | none => exact inStep_throw _
      | some e => exact inStep_pure fun _ => rfl

/-- The column of a path is the same but for the labels of its expression where the dialects say
alike what it reads. -/
theorem inStep_column (h : s.Respells labels names names') (hroot : labels collection = collection)
    {hops : Hops} {path : List String}
    (hsame : exact → ∀ place key,
      placeOf hops collection path.dropLast (Hops.key path) = .ok place →
      path.getLast? = some key →
      s.ReadsAlike options.dialect options'.dialect place.collection key) :
    InStep exact (fun column column' => exact → column' = { column with
        expr := column.expr.relabelled labels })
      ((s.context options names).column hops collection path)
      ((s.context options' names').column (hops.relabelled labels) collection path) := by
  unfold Context.column
  dsimp only
  split
  · exact inStep_throw _
  · next last hlast =>
    rw [placeOf_relabelled hroot]
    refine (inStep_lift (Except.Matches.map_self _ _)).gives.bind ?_
    rintro place place' ⟨hplace', k, k', hplace⟩
    replace hplace := (Compile.gives_lift.mp hplace).1
    rw [hplace']
    refine (inStep_refl _).gives.bind ?_
    rintro field field' ⟨hfield', j, j', hfield⟩
    replace hfield := (field_gives.mp hfield).1
    rw [← hfield']
    cases hfunction : (splitFunction last).1 with
    | none =>
      dsimp only
      split
      · exact inStep_throw _
      · refine inStep_pure fun _ => ?_
        dsimp only
        rw [relabelled_of]
        rfl
    | some name =>
      refine (inStep_applyFunction h place name _ _ fun hexact => ?_).bind fun e e' he => ?_
      · refine (hsame hexact place last hplace hlast).imp id fun hreads function hname => ?_
        exact hreads name function field hfunction hname (Except.ok.inj hfield)
      · exact inStep_pure fun hexact => by rw [he hexact]

/-! ## Comparisons -/

/-- A comparison of a column is the same but for the labels where the dialects say it alike. -/
theorem compare?_relabelled {column : Column} {comparison : Comparison}
    (hsame : options.dialect = options'.dialect ∨
      (∀ dateKind, column.valueKind ≠ .date dateKind) ∧ comparison.operator.arity ≠ .geometry) :
    (s.context options' names').compare? { column with expr := column.expr.relabelled labels }
        comparison =
      ((s.context options names).compare? column comparison).map
        (Option.map (Expr.relabelled labels)) := by
  have hkind : Column.valueKind { column with expr := column.expr.relabelled labels } =
      column.valueKind := rfl
  have hcheck : checkOperator { column with expr := column.expr.relabelled labels }
      comparison.operator = checkOperator column comparison.operator := rfl
  unfold compare? dialect
  dsimp only
  rw [hcheck, hkind, Schema.context_options, Schema.context_options]
  cases checkOperator column comparison.operator with
  | error e => rfl
  | ok admitted =>
    simp only [bind, Except.bind]
    split
    · rfl
    · rw [← relabelled_predicate?]
      rcases hsame with hdialect | ⟨hplain, hoperator⟩
      · rw [hdialect]
      · rw [predicate?_congr options.dialect options'.dialect hoperator]
        cases comparison.value with
        | none => rfl
        | some value =>
          dsimp only
          rw [list_congr options.dialect options'.dialect hplain]

theorem mapM_map {ι α β : Type} {f : ι → Except QueryError α} {g : ι → Except QueryError β}
    {h : α → β} {items : List ι} (hitems : ∀ item ∈ items, g item = (f item).map h) :
    items.mapM g = (items.mapM f).map (List.map h) := by
  induction items with
  | nil => rfl
  | cons item rest ih =>
    rw [List.mapM_cons, List.mapM_cons, hitems item List.mem_cons_self,
      ih fun other hmem => hitems other (List.mem_cons_of_mem _ hmem)]
    cases f item with
    | error e => rfl
    | ok a => cases rest.mapM f <;> rfl

theorem compareAll?_relabelled {column : Column} {comparisons : List Comparison}
    (hsame : ∀ comparison ∈ comparisons, options.dialect = options'.dialect ∨
      (∀ dateKind, column.valueKind ≠ .date dateKind) ∧ comparison.operator.arity ≠ .geometry) :
    (s.context options' names').compareAll? { column with expr := column.expr.relabelled labels }
        comparisons =
      ((s.context options names).compareAll? column comparisons).map
        (Option.map (Expr.relabelled labels)) := by
  rw [compareAll?, compareAll?, mapM_map fun comparison hmem =>
    compare?_relabelled (hsame comparison hmem)]
  cases comparisons.mapM ((s.context options names).compare? column) with
  | error e => rfl
  | ok parts =>
    simp only [Except.map, bind, Except.bind, pure, Except.pure]
    rw [List.reduceOption_map, relabelled_conjunction?]

/-- Comparisons of a key are said alike where its column is. -/
theorem alike_of_column {hops : Hops} {parents : List String} {key : String} {place : Place}
    {comparisons : List Comparison} {column : Column} {k k' : Nat}
    (hplace : placeOf hops collection parents (Hops.key (parents ++ [key])) = .ok place)
    (hcolumn : ((s.context options names).column hops collection (parents ++ [key])).Gives k column
      k')
    (hsame : s.ComparesAlike options.dialect options'.dialect place.collection key comparisons) :
    ∀ comparison ∈ comparisons, options.dialect = options'.dialect ∨
      (∀ dateKind, column.valueKind ≠ .date dateKind) ∧ comparison.operator.arity ≠ .geometry := by
  intro comparison hmem
  refine hsame.imp id fun hportable => ⟨valueKind_ne_date fun hplain => ?_,
    hportable.operators comparison hmem⟩
  obtain ⟨last, there, field, hlast, hthere, hfield, hread⟩ := column_gives hcolumn
  rw [List.getLast?_concat] at hlast
  obtain rfl := Option.some.inj hlast
  rw [List.dropLast_concat, hplace] at hthere
  obtain rfl := Except.ok.inj hthere
  rcases hread with ⟨hnone, -, -, rfl⟩ | ⟨function, e, -, -, rfl⟩
  · exact hportable.plain field hnone (Except.ok.inj hfield)
  · cases hplain

/-- What is asked of a field by comparisons is the same but for the labels where the dialects say it
alike. -/
theorem inStep_compared (h : s.Respells labels names names')
    (hroot : labels collection = collection) {hops : Hops} {parents : List String} {key : String}
    {comparisons : List Comparison}
    (hsame : exact → ∀ place, placeOf hops collection parents
        (Hops.key (parents ++ [Text.trim key])) = .ok place →
      s.ComparesAlike options.dialect options'.dialect place.collection (Text.trim key)
        comparisons) :
    InStep exact (fun e? e'? => exact → e'? = e?.map (Expr.relabelled labels))
      ((s.context options names).fieldCondition? hops collection parents key
        (.compare comparisons))
      ((s.context options' names').fieldCondition? (hops.relabelled labels) collection parents key
        (.compare comparisons)) := by
  have hstart : (s.context options' names').startsExistential collection parents key =
      (s.context options names).startsExistential collection parents key := rfl
  rw [fieldCondition?, fieldCondition?, hstart]
  split
  · exact InStep.bind (R := fun _ _ => False) (inStep_throw _) fun _ _ hnone => hnone.elim
  · refine (inStep_column h hroot ?_).gives.bind
      fun column column' ⟨hcolumn', k, k', hcolumn⟩ => ?_
    · rw [List.dropLast_concat, List.getLast?_concat]
      intro hexact place last hplace hlast
      obtain rfl := Option.some.inj hlast
      exact (hsame hexact place hplace).imp id fun hportable => hportable.reads
    · refine inStep_lift ?_
      by_cases hexact : exact
      · obtain ⟨last, place, field, hlast, hplace, -⟩ := column_gives hcolumn
        rw [List.dropLast_concat] at hplace
        rw [hcolumn' hexact, compareAll?_relabelled
          (alike_of_column hplace hcolumn (hsame hexact place hplace))]
        exact (Except.Matches.map_self _ _).mono fun _ _ he _ => he
      · exact Except.Matches.of_loose hexact fun _ _ _ _ hexact' => absurd hexact' hexact

end Context

end JsonSql
