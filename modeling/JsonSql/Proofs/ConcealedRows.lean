import JsonSql.Proofs.Concealment
import JsonSql.Proofs.Parts

set_option autoImplicit false

/-!
# Concealed values of a request

What a compiled request tells of concealed fields.  Its filter asks of them only whether there is a
value, its search asks nothing of them, and two databases that differ in hidden values only give
the conditions of the statement the same truth values, row by row (`concealed_of_compile`).  A
function of a concealed field is not covered: it counts as a number, which is compared like any
other (`tells_year_of_concealed`).
-/

namespace JsonSql

open JsonSql.Sql

variable {E : Engine} {s : Schema} {options : Options} {names : Nat → String}
  {shown : String → String → Prop} {db db' : Database E} {collection : String} {r : Request}
  {k k' : Nat}

/-! ## Columns that may show -/

/-- A link from a collection that the statement of a request follows: on the way along a path, or
for the filter. -/
inductive Context.FollowsFor (c : Context) (collection : String) (r : Request) :
    String → Link → Prop
  | walked {path before : List String} {segment owner : String} :
      path ∈ c.walkedPaths collection r → before ++ [segment] <+: path.dropLast →
      c.destination? collection before = some owner →
      FollowsFor c collection r owner (c.link owner segment)
  | filter {f : Filter} {owner : String} {link : Link} : r.filter = some f →
      c.Follows collection f.unfolded owner link → FollowsFor c collection r owner link

/-- The columns that a request may tell of: those of fields that are not concealed, and those that
are used as keys. -/
inductive Context.Reveals (c : Context) (s : Schema) (collection : String) (r : Request) :
    String → String → Prop
  | field {owner : String} {f : Field} : f ∈ s.fieldsOf owner → f.isConcealed = false →
      Reveals c s collection r owner f.name
  | key {owner other column : String} {link : Link} : c.FollowsFor collection r owner link →
      link.HasKey s owner other column → Reveals c s collection r other column

/-- No function of a concealed field is compared by the filter of a request. -/
def Context.WrapsNoConcealed (c : Context) (s : Schema) (collection : String) (r : Request) :
    Prop :=
  ∀ f ∈ r.filter, ∀ owner field comparisons function name declared,
    c.Compares collection f.unfolded owner field comparisons →
    splitFunction field = (some function, name) → s.field? owner name = some declared →
    declared.isConcealed = false

theorem Context.isDiscreet_of_wrapsNoConcealed {c : Context} {f : Filter}
    (h : c.WrapsNoConcealed s collection r) (hf : r.filter = some f) :
    c.IsDiscreet s (c.Reveals s collection r) collection f.unfolded :=
  ⟨fun _ _ hfollows _ _ hkey => .key (.filter hf hfollows) hkey, h f hf⟩

/-! ## Rows of a statement -/

/-- The rows that the condition of a statement is put to, with the joins of the statement. -/
def Sql.Query.candidates (q : Query) (db : Database E) : List (Tables E) :=
  (sourceTables db [] q.source).flatMap fun tables => joinTables db tables q.joins

theorem Sql.Query.candidates_eq {q : Query} (hsource : q.source = some ⟨collection, none⟩) :
    q.candidates db = (db collection).flatMap fun row =>
      joinTables db [(collection, row)] q.joins := by
  rw [candidates, hsource, sourceTables, List.flatMap_map]
  rfl

namespace Scope.Mirrored

variable {scope start : Scope} {declared : Collection} {k₀ : Nat}

/-- Mirrored rows depend on the joins of a statement only. -/
theorem congr (h : scope.Mirrored shown db db' collection) {other : Scope}
    (hjoins : other.query.joins = scope.query.joins) (hhops : other.hops = scope.hops) :
    other.Mirrored shown db db' collection := by
  intro outer outer' row row' hrow
  rw [hjoins, hhops]
  exact h outer outer' row row' hrow

/-- The parts of a request besides its search and its filter. -/
theorem prepares {paths : List (List String)} (hinjective : Function.Injective names)
    (hdb : AlikeDatabases shown db db') (hc : s.collection? collection = some declared)
    (havoids : s.AvoidsAliases names k) (hpaths : ∀ path ∈ paths, IsPath path)
    (hkeys : ∀ path ∈ paths, (s.context options names).KeysShownAlong s shown collection path)
    (hled : start.hops.Led (s.context options names) collection k₀)
    (h : start.Mirrored shown db db' collection)
    (hprepares : (s.context options names).Prepares collection paths start k₀ scope k) :
    scope.Mirrored shown db db' collection := by
  induction hprepares with
  | refl => exact h
  | @join scope next path several k k' hbefore hpath hjoin ih =>
    have hgrows := Context.grows_joinPath _ _ _ hjoin
    exact (ih (havoids.mono hgrows)).joinPath hinjective hdb hc havoids (hpaths path hpath)
      (hbefore.led hpaths hled) (hkeys path hpath) hjoin
  | rest _ hjoins _ hle ih => exact (ih (havoids.mono hle)).congr hjoins rfl

end Scope.Mirrored

/-! ## Searches -/

/-- The predicates of the search of a request. -/
def Schema.searched (s : Schema) (collection : String) (r : Request) : List Expr :=
  r.search.toList.flatMap fun term =>
    (searchCondition collection (Text.trim term) (s.fieldsOf collection)).predicates

/-- A predicate of a search is on a field that is not concealed, or cannot be met. -/
theorem Schema.mem_searched {p : Expr} (h : p ∈ s.searched collection r) :
    p = .equals (.int 1) (.int 0) ∨ ∃ f ∈ s.fieldsOf collection, f.isConcealed = false ∧
      IsPredicate (.of collection f.name) p := by
  obtain ⟨term, -, hp⟩ := List.mem_flatMap.mp h
  exact predicates_searchCondition hp

theorem searchStage_gives {scope scope' : Scope}
    (h : ((s.context options names).searchStage collection r scope).Gives k scope' k') :
    scope'.hops = scope.hops ∧ scope'.query.joins = scope.query.joins ∧
      scope'.query.condition.toList.flatMap Expr.predicates =
        scope.query.condition.toList.flatMap Expr.predicates ++ s.searched collection r := by
  unfold Context.searchStage at h
  unfold Schema.searched
  split at h
  · next hnone =>
    obtain ⟨rfl, -⟩ := Compile.gives_pure.mp h
    rw [hnone, Option.toList_none, List.flatMap_nil, List.append_nil]
    exact ⟨rfl, rfl, rfl⟩
  · next term hterm =>
    simp only [Compile.gives_map, Context.search, Compile.gives_bind, Context.ask_gives,
      Compile.gives_pure] at h
    obtain ⟨q, ⟨fields, k₁, ⟨hfields, -⟩, rfl, -⟩, rfl⟩ := h
    obtain rfl : s.fieldsOf collection = fields := Except.ok.inj hfields
    rw [hterm, Option.toList_some, List.flatMap_singleton]
    exact ⟨rfl, rfl, predicates_addCondition _ _⟩

/-- A search gives the same truth values on rows of the collection that correspond. -/
theorem truthOn_searched_eq {tables tables' : Tables E} {hops : Hops}
    (hshown : s.ShowsFields shown) (htwins : Twins shown collection hops tables tables') :
    ∀ p ∈ s.searched collection r, p.truthOn db tables = p.truthOn db' tables' := by
  intro p hp
  rcases Schema.mem_searched hp with rfl | ⟨f, hf, hplain, hpredicate⟩
  · exact truthOn_equals_eq rfl rfl
  · exact hpredicate.truthOn_eq (htwins.root.value_of_eq (hshown _ f hf hplain))

/-! ## Requests -/

/-- The condition of a compiled request is put together from its search and, if it has one, its
filter, on joins that stay on record to the end. -/
theorem joined_of_apply {q : Query} {applied : Applied} (hcondition : q.condition = none)
    (h : ((s.context options names).apply collection q r false).Gives 0 applied k) :
    ∃ scope filtered, applied.query = scope.query ∧
      (q.joins = [] → (s.context options names).JoinsAlong false collection
        ((s.context options names).walkedPaths collection r) scope) ∧
      applied.query.condition.toList.flatMap Expr.predicates =
        s.searched collection r ++ filtered ∧ (r.filter = none → filtered = []) ∧
      ∀ f ∈ r.filter, ∃ hops e? k₁ k₂, hops.Led (s.context options names) collection k₁ ∧
        Context.Keeps hops scope.hops ∧
        ((s.context options names).condition? hops collection [] f.unfolded).Gives k₁ e? k₂ ∧
        filtered = e?.toList.flatMap Expr.predicates := by
  obtain ⟨scope₁, k₁, scope₂, scope₃, k₃, scope₄, several, k₄, scope₅, hbefore, hsearch, hbetween,
    hfilter, hafter, hquery, hjoins⟩ :=
    Context.parts_of_apply (fun info hinfo => s.name_of_collection hinfo) h
  obtain ⟨hhops, -, hsought⟩ := searchStage_gives hsearch
  have hpaths : ∀ path ∈ (s.context options names).walkedPaths collection r, IsPath path :=
    Context.isPath_of_mem_walkedPaths
  have hled : scope₃.hops.Led (s.context options names) collection k₃ :=
    hbetween.led hpaths (hhops ▸ hbefore.led hpaths (.empty 0))
  have hstart : scope₃.query.condition.toList.flatMap Expr.predicates =
      s.searched collection r := by
    rw [hbetween.condition_eq, hsought, hbefore.condition_eq, hcondition, Option.toList_none,
      List.flatMap_nil, List.nil_append]
  have hkeeps := hafter.keeps
  have hlast := hafter.condition_eq
  rcases Context.filterStage_gives hfilter with ⟨hnone, rfl, rfl⟩ | ⟨f, hf, hrestrict⟩
  · refine ⟨scope₅, [], hquery, hjoins, ?_, fun _ => rfl, fun f hf => ?_⟩
    · rw [hquery, hlast, hstart, List.append_nil]
    · rw [hnone] at hf
      cases hf
  · obtain ⟨scope, k₅, e?, hjoin, he, hsame, -, hadded⟩ := Context.restrict_gives hrestrict
    refine ⟨scope₅, e?.toList.flatMap Expr.predicates, hquery, hjoins, ?_, fun hnone => ?_,
      fun g hg => ?_⟩
    · rw [hquery, hlast, hadded, hstart]
    · rw [hnone] at hf
      cases hf
    · obtain rfl : f = g := Option.some.inj (hf.symm.trans hg)
      exact ⟨scope.hops, e?, k₅, k₄, hled.joinFilter (isUnfolded_unfolded f) hjoin,
        hsame ▸ hkeeps, he, rfl⟩

theorem filtered_of_apply {q : Query} {applied : Applied} (hcondition : q.condition = none)
    (h : ((s.context options names).apply collection q r false).Gives 0 applied k) :
    ∃ filtered, applied.query.condition.toList.flatMap Expr.predicates =
        s.searched collection r ++ filtered ∧ (r.filter = none → filtered = []) ∧
      ∀ f ∈ r.filter, ∃ hops e? k₁ k₂, hops.Led (s.context options names) collection k₁ ∧
        ((s.context options names).condition? hops collection [] f.unfolded).Gives k₁ e? k₂ ∧
        filtered = e?.toList.flatMap Expr.predicates := by
  obtain ⟨scope, filtered, -, -, hpredicates, hnone, hasked⟩ := joined_of_apply hcondition h
  refine ⟨filtered, hpredicates, hnone, fun f hf => ?_⟩
  obtain ⟨hops, e?, k₁, k₂, hled, -, he, hfiltered⟩ := hasked f hf
  exact ⟨hops, e?, k₁, k₂, hled, he, hfiltered⟩

/-- The condition of a compiled request is put together from its search and its filter. -/
theorem condition_of_apply {q : Query} {applied : Applied} (hcondition : q.condition = none)
    (h : ((s.context options names).apply collection q r false).Gives 0 applied k) :
    ∃ filtered, applied.query.condition.toList.flatMap Expr.predicates =
        s.searched collection r ++ filtered ∧
      ∀ f ∈ r.filter, ∃ hops e? k₁ k₂, hops.Led (s.context options names) collection k₁ ∧
        ((s.context options names).condition? hops collection [] f.unfolded).Gives k₁ e? k₂ ∧
        filtered = e?.toList.flatMap Expr.predicates := by
  obtain ⟨filtered, hpredicates, -, hasked⟩ := filtered_of_apply hcondition h
  exact ⟨filtered, hpredicates, hasked⟩

/-! ## Stages -/

/-- As far as a scope goes, its statement conceals what is hidden: its joins put rows beside rows
that correspond which do so too, and its predicates have the same truth values on them. -/
structure Scope.Conceals (c : Context) (shown : String → String → Prop) (db db' : Database E)
    (collection : String) (scope : Scope) (k : Nat) : Prop where
  led : scope.hops.Led c collection k
  mirrored : scope.Mirrored shown db db' collection
  truths : ∀ tables tables', Twins shown collection scope.hops tables tables' →
    ∀ p ∈ scope.query.condition.toList.flatMap Expr.predicates,
      p.truthOn db tables = p.truthOn db' tables'

namespace Scope.Conceals

variable {scope scope' : Scope} {declared : Collection}

/-- A statement without joins and without a condition. -/
theorem ofNone {c : Context} {q : Query} (hjoins : q.joins = []) (hcondition : q.condition = none) :
    Conceals c shown db db' collection { query := q } 0 := by
  refine ⟨.empty 0, .ofNil hjoins, fun tables tables' _ p hp => ?_⟩
  rw [hcondition] at hp
  cases hp

/-- The parts of a request besides its search and its filter. -/
theorem prepares {paths : List (List String)} (hinjective : Function.Injective names)
    (hdb : AlikeDatabases shown db db') (hc : s.collection? collection = some declared)
    (havoids : s.AvoidsAliases names k') (hpaths : ∀ path ∈ paths, IsPath path)
    (hkeys : ∀ path ∈ paths, (s.context options names).KeysShownAlong s shown collection path)
    (h : scope.Conceals (s.context options names) shown db db' collection k)
    (hprepares : (s.context options names).Prepares collection paths scope k scope' k') :
    scope'.Conceals (s.context options names) shown db db' collection k' := by
  refine ⟨hprepares.led hpaths h.led,
    h.mirrored.prepares hinjective hdb hc havoids hpaths hkeys h.led hprepares,
    fun tables tables' htwins => ?_⟩
  rw [hprepares.condition_eq]
  exact h.truths tables tables' (htwins.mono hprepares.keeps)

theorem searchStage (hshown : s.ShowsFields shown)
    (h : scope.Conceals (s.context options names) shown db db' collection k)
    (hsearch : ((s.context options names).searchStage collection r scope).Gives k scope' k') :
    scope'.Conceals (s.context options names) shown db db' collection k := by
  obtain ⟨hhops, hjoins, hpredicates⟩ := searchStage_gives hsearch
  refine ⟨hhops ▸ h.led, h.mirrored.congr hjoins hhops, fun tables tables' htwins p hp => ?_⟩
  rw [hhops] at htwins
  rw [hpredicates] at hp
  rcases List.mem_append.mp hp with hp | hp
  · exact h.truths tables tables' htwins p hp
  · exact truthOn_searched_eq hshown htwins p hp

theorem filterStage {several : Bool} (hinjective : Function.Injective names)
    (hdb : AlikeDatabases shown db db') (hshown : s.ShowsFields shown)
    (hc : s.collection? collection = some declared) (havoids : s.AvoidsAliases names k')
    (hdiscreet : ∀ f ∈ r.filter,
      (s.context options names).IsDiscreet s shown collection f.unfolded)
    (h : scope.Conceals (s.context options names) shown db db' collection k)
    (hfilter : ((s.context options names).filterStage collection false r scope).Gives k
      (scope', several) k') :
    scope'.Conceals (s.context options names) shown db db' collection k' := by
  rcases Context.filterStage_gives hfilter with ⟨-, rfl, rfl⟩ | ⟨f, hf, hrestrict⟩
  · exact h
  · obtain ⟨joined, k₁, e?, hjoin, he, hhops, hjoins, hpredicates⟩ :=
      Context.restrict_gives hrestrict
    have hasked := Context.grows_condition? _ _ _ _ he
    have hled := h.led.joinFilter (isUnfolded_unfolded f) hjoin
    have hmirrored := h.mirrored.joinFilter hinjective hdb hc (havoids.mono hasked)
      (isUnfolded_unfolded f) h.led (hdiscreet f hf).along hjoin
    refine ⟨hhops ▸ hled.mono hasked, hmirrored.congr hjoins hhops,
      fun tables tables' htwins p hp => ?_⟩
    rw [hhops] at htwins
    rw [hpredicates] at hp
    rcases List.mem_append.mp hp with hp | hp
    · exact h.truths tables tables' (htwins.mono (Context.keeps_of_joinFilter hjoin)) p hp
    · exact truthOn_condition?_eq hinjective hdb hshown _ rfl hc (isUnfolded_unfolded f) havoids
        (hdiscreet f hf) hled htwins he p hp

end Scope.Conceals

/-- What a compiled request does not reveal, its statement conceals. -/
theorem conceals_of_apply {q : Query} {applied : Applied} {declared : Collection}
    (hinjective : Function.Injective names) (hc : s.collection? collection = some declared)
    (havoids : s.AvoidsAliases names k)
    (hplain : (s.context options names).WrapsNoConcealed s collection r)
    (hdb : AlikeDatabases ((s.context options names).Reveals s collection r) db db')
    (hjoins : q.joins = []) (hcondition : q.condition = none)
    (h : ((s.context options names).apply collection q r false).Gives 0 applied k) :
    ∃ hops, Scope.Conceals (s.context options names)
      ((s.context options names).Reveals s collection r) db db' collection
      ⟨applied.query, hops⟩ k := by
  obtain ⟨scope₁, k₁, scope₂, scope₃, k₃, scope₄, several, k₄, scope₅, hbefore, hsearch, hbetween,
    hfilter, hafter, hquery, -⟩ :=
    Context.parts_of_apply (fun info hinfo => s.name_of_collection hinfo) h
  have hpaths : ∀ path ∈ (s.context options names).walkedPaths collection r, IsPath path :=
    Context.isPath_of_mem_walkedPaths
  have hshown : s.ShowsFields ((s.context options names).Reveals s collection r) :=
    fun _ _ hf hopen => .field hf hopen
  have hkeys : ∀ path ∈ (s.context options names).walkedPaths collection r,
      (s.context options names).KeysShownAlong s ((s.context options names).Reveals s collection r)
        collection path :=
    fun _ hpath _ _ _ halong howner _ _ hkey => .key (.walked hpath halong howner) hkey
  have havoids₄ := havoids.mono hafter.grows
  have havoids₃ := havoids₄.mono (Context.grows_filterStage hfilter)
  have h₁ := (Scope.Conceals.ofNone hjoins hcondition).prepares hinjective hdb hc
    (havoids₃.mono hbetween.grows) hpaths hkeys hbefore
  have h₂ := h₁.searchStage hshown hsearch
  have h₃ := h₂.prepares hinjective hdb hc havoids₃ hpaths hkeys hbetween
  have h₄ := h₃.filterStage hinjective hdb hshown hc havoids₄
    (fun _ hf => Context.isDiscreet_of_wrapsNoConcealed hplain hf) hfilter
  have h₅ := h₄.prepares hinjective hdb hc havoids hpaths hkeys hafter
  exact ⟨scope₅.hops, by rw [hquery]; exact h₅⟩

/-! ## Compiled statements -/

/-- A condition tells the same of two databases: the rows that it is put to correspond, and so do
its truth value and that of each of its predicates. -/
def Sql.Query.TellsAlike (shown : String → String → Prop) (collection : String) (q : Query)
    (db db' : Database E) : Prop :=
  List.Forall₂ (fun tables tables' =>
      AlikeRows shown collection (rowOf tables collection) (rowOf tables' collection) ∧
        ∀ e ∈ q.condition, e.truthOn db tables = e.truthOn db' tables' ∧
          ∀ p ∈ e.predicates, p.truthOn db tables = p.truthOn db' tables')
    (q.candidates db) (q.candidates db')

/-- The truth values of a condition on the rows that it is put to. -/
def Sql.Query.truths (q : Query) (db : Database E) : List (Option Truth) :=
  (q.candidates db).map fun tables => q.condition.map fun e => e.truthOn db tables

theorem Sql.Query.TellsAlike.truths_eq {q : Query} (h : q.TellsAlike shown collection db db') :
    q.truths db = q.truths db' := by
  rw [truths, truths, ← List.forall₂_eq_eq_eq, List.forall₂_map_left_iff,
    List.forall₂_map_right_iff]
  refine h.imp fun tables tables' hboth => ?_
  cases hcondition : q.condition with
  | none => rfl
  | some e =>
    rw [Option.map_some, Option.map_some, (hboth.2 e hcondition).1]

/-- A compiled request tells nothing of concealed values.  Its filter asks of a concealed field
itself only whether there is a value, and its search asks of fields that are not concealed.  Unless
it compares a function of a concealed field, or issues an alias that is spelled like a collection,
its condition tells the same of databases that differ in hidden values only. -/
theorem concealed_of_compile {letters : Alias.Letters} {q : Query}
    (h : (s.compiler options letters).compile collection r = .ok q) :
    (∀ f ∈ r.filter, ∀ owner field comparisons declared,
      (s.context options (s.compiler options letters).names).Compares collection f.unfolded owner
        field comparisons →
      (splitFunction field).1 = none → s.field? owner (splitFunction field).2 = some declared →
      declared.isConcealed = true →
      ∀ comparison ∈ comparisons, comparison.operator.isBlind = true) ∧
    (∃ filtered, q.condition.toList.flatMap Expr.predicates =
        s.searched collection r ++ filtered ∧
      ∀ p ∈ s.searched collection r, p = .equals (.int 1) (.int 0) ∨
        ∃ f ∈ s.fieldsOf collection, f.isConcealed = false ∧
          IsPredicate (.of collection f.name) p) ∧
    ((s.context options (s.compiler options letters).names).WrapsNoConcealed s collection r →
      (∀ name ∈ (s.compiler options letters).issued collection r, s.collection? name = none) →
      ∀ {E : Engine} (db db' : Database E),
        AlikeDatabases ((s.context options (s.compiler options letters).names).Reveals s
          collection r) db db' →
        q.TellsAlike ((s.context options (s.compiler options letters).names).Reveals s
          collection r) collection db db') := by
  have hsource := (isStatement_of_compile h).source
  obtain ⟨applied, happlied, rfl⟩ := Compiler.compile_eq_ok h
  obtain ⟨relations, k, hrelations, happly⟩ := Compiler.apply_eq_ok happlied
  obtain rfl : s.relations = relations := Except.ok.inj hrelations
  have hjoins := Compiler.target_joins collection r
  have hcondition := Compiler.target_condition collection r
  obtain ⟨info, hinfo⟩ := Context.collection_of_apply happly
  obtain ⟨declared, hc, -⟩ := Option.map_eq_some_iff.mp (Except.ok.inj hinfo)
  obtain ⟨filtered, hpredicates, hfiltered⟩ := condition_of_apply hcondition happly
  refine ⟨fun f hf owner field comparisons declared hcompares hplain hdeclared hconcealed => ?_,
    ⟨filtered, hpredicates, fun p => Schema.mem_searched⟩,
    fun hplain havoids E db db' hdb => ?_⟩
  · obtain ⟨hops, e?, k₁, k₂, hled, he, -⟩ := hfiltered f hf
    exact Context.isBlind_of_compares hcompares (isUnfolded_unfolded f) hled he hplain
      (congrArg Except.ok hdeclared) hconcealed
  · obtain ⟨hops, hconceals⟩ := conceals_of_apply (Alias.names_injective _ _ _) hc
      (fun j hj => havoids _ (Compiler.mem_issued hrelations happly hj)) hplain hdb hjoins
      hcondition happly
    rw [Query.TellsAlike, Query.candidates_eq hsource, Query.candidates_eq hsource]
    refine (hconceals.mirrored.rows hdb [] []).imp fun tables tables' htwins => ⟨htwins.root, ?_⟩
    intro e he
    have hall : ∀ p ∈ e.predicates, p.truthOn db tables = p.truthOn db' tables' :=
      fun p hp => hconceals.truths tables tables' htwins p
        (List.mem_flatMap.mpr ⟨e, Option.mem_toList.mpr he, hp⟩)
    exact ⟨truthOn_eq_of_predicates hall, hall⟩

/-! ## Concealed birthdays -/

/-- The leaves of one comparison. -/
theorem Context.leaves_compare (c : Context) (parents : List String) (key : String)
    (comparisons : List Comparison) :
    c.leaves collection parents (.of (.field key (.compare comparisons))) =
      [.compared parents key comparisons] := by
  rw [Filter.of, leaves, clausesLeaves, clausesLeaves, clauseLeaves, conditionLeaves,
    List.append_nil]

/-- A request that compares one column, and counts no rows, follows the links of its paths only. -/
theorem Context.FollowsFor.exists_walked {c : Context} {f : Filter} {parents : List String}
    {key owner : String} {comparisons : List Comparison} {link : Link} (hf : r.filter = some f)
    (hleaves : c.leaves collection [] f.unfolded = [.compared parents key comparisons])
    (hcount : ∀ function, (splitFunction (Text.trim key)).1 = some function →
      FieldFunction.ofName? function ≠ some .count)
    (h : c.FollowsFor collection r owner link) :
    ∃ path ∈ c.walkedPaths collection r, ∃ before segment,
      before ++ [segment] <+: path.dropLast ∧ c.destination? collection before = some owner ∧
        link = c.link owner segment := by
  cases h with
  | walked hpath halong howner => exact ⟨_, hpath, _, _, halong, howner, rfl⟩
  | filter hg hfollows =>
    obtain rfl := Option.some.inj (hf.symm.trans hg)
    cases hfollows with
    | along hpath halong howner =>
      have hrequest : _ ∈ c.requestPaths collection r :=
        List.mem_flatMap.mpr ⟨f, Option.mem_toList.mpr hf, hpath⟩
      exact ⟨_, List.mem_append_left _ (List.mem_append_right _ hrequest), _, _, halong, howner,
        rfl⟩
    | counted hmem _ hsplit hcounted =>
      rw [hleaves, List.mem_singleton] at hmem
      cases hmem
      exact absurd hcounted (hcount _ (congrArg Prod.fst hsplit))
    | asked hmem | inside hmem =>
      rw [hleaves, List.mem_singleton] at hmem
      cases hmem

/-- Articles by authors whose birthdays are concealed. -/
def Schema.birthdays : Schema where
  collections := [
    { info := { name := "articles", primary := "id" }
      fields := [⟨"id", .integer, [], none⟩, ⟨"title", .string, [], none⟩,
        ⟨"author", .integer, [], none⟩] },
    { info := { name := "authors", primary := "id" }
      fields := [⟨"id", .integer, [], none⟩, ⟨"name", .string, [], none⟩,
        ⟨"born", .date, ["conceal"], none⟩] }]
  relations := [{ collection := "articles", field := "author", related := some "authors" }]

/-- The schema with sequential aliases. -/
abbrev Context.birthdays : Context :=
  Schema.birthdays.context {} (Schema.birthdays.compiler {} fun _ => 0).names

/-- A request whose paths lead from articles to their authors at most does not tell of birthdays. -/
theorem Context.not_reveals_birthdays
    (hwalked : ∀ owner link,
      (Schema.birthdays.context options names).FollowsFor collection r owner link →
        owner = "articles" ∧ link = JsonSql.link Schema.birthdays.relations "articles" "author") :
    ¬(Schema.birthdays.context options names).Reveals Schema.birthdays collection r "authors"
      "born" := by
  have hlink : JsonSql.link Schema.birthdays.relations "articles" "author" =
      .manyToOne { collection := "articles", field := "author", related := some "authors" } := by
    decide +kernel
  have hall : ∀ owner column,
      (Schema.birthdays.context options names).Reveals Schema.birthdays collection r owner
        column → owner = "authors" → column ≠ "born" := by
    intro owner column hreveals howner
    cases hreveals with
    | @field _ f hf hopen =>
      have hfields : ∀ f ∈ Schema.birthdays.fieldsOf "authors", f.isConcealed = false →
          f.name ≠ "born" := by
        decide +kernel
      exact hfields f (howner ▸ hf) hopen
    | key hfollows hkey =>
      obtain ⟨rfl, rfl⟩ := hwalked _ _ hfollows
      rw [hlink] at hkey
      cases hkey with
      | field hrelation =>
        cases hrelation
        exact absurd howner (by decide)
      | discriminator hrelation hcolumn =>
        cases hrelation
        cases hcolumn
      | primary hreferred =>
        cases hreferred
        decide +kernel
  intro hreveals
  exact hall _ _ hreveals rfl rfl

/-- An engine whose values are literals, and which knows the years of dates. -/
def Engine.years : Engine :=
  { Engine.literals with call }
where
  /-- The year of the day that a text denotes. -/
  call : String → List (Option Literal) → Option Literal
    | "DATE_PART", [some (.string "year"), some (.string text)] =>
      (Calendar.readMoment? text).map fun moment => .int moment.date.year
    | _, _ => none

/-- An article by Ann, who was born on a day. -/
def Database.birthday (born : String) : Database Engine.years
  | "articles" => [row [("id", .int 1), ("title", .string "tea"), ("author", .int 1)]]
  | "authors" => [row [("id", .int 1), ("name", .string "Ann"), ("born", .string born)]]
  | _ => []
where
  /-- A row of which these values are known. -/
  row (values : List (String × Literal)) : Row Engine.years :=
    fun column => (values.lookup column : Option Literal)

theorem alikeDatabases_birthday {born other : String} (hhidden : ¬shown "authors" "born")
    (hborn : born ≠ "") (hother : other ≠ "") :
    AlikeDatabases shown (Database.birthday born) (Database.birthday other) := by
  intro collection
  unfold Database.birthday
  split
  · exact .cons (.refl _) .nil
  · refine .cons (fun column => ?_) .nil
    by_cases hcolumn : column = "born"
    · rw [hcolumn]
      have hfilled (text : String) (htext : text ≠ "") :
          Engine.years.IsFilled (Database.birthday.row
            [("id", .int 1), ("name", .string "Ann"), ("born", .string text)] "born") := by
        refine ⟨rfl, fun hsame => htext ?_⟩
        change Truth.ofBool (decide (Literal.string text = Literal.string "")) = .yes at hsame
        rw [Truth.ofBool_eq_yes, decide_eq_true_eq] at hsame
        exact Literal.string.inj hsame
      exact .inr ⟨hhidden, hfilled born hborn, hfilled other hother⟩
    · refine .inl ?_
      simp only [Database.birthday.row, List.lookup_cons, List.lookup_nil,
        beq_eq_false_iff_ne.mpr hcolumn]
      rfl
  · exact .nil

/-- The author has a birthday. -/
def Filter.bornKnown : Filter :=
  .of (.field "author" (.nested (.of (.field "born" (.compare [⟨.null true, none⟩])))))

/-- Articles about tea by authors whose birthday is known. -/
def Request.birthdays : Request where
  filter := some .bornKnown
  search := some "tea"

/-- Authors born in 2020. -/
def Request.bornIn2020 : Request where
  filter := some (.of (.field "year(born)" (.compare
    [⟨.equal false false, some (.number (.int 2020))⟩])))
  limit := some (-1)

theorem concealed_of_compile_birthdays :
    ∃ q, (Schema.birthdays.compiler {} fun _ => 0).compile "articles" Request.birthdays = .ok q ∧
      (∀ comparisons, Context.birthdays.Compares "articles" Filter.bornKnown "authors" "born"
          comparisons → ∀ comparison ∈ comparisons, comparison.operator.isBlind = true) ∧
      q.TellsAlike (Context.birthdays.Reveals Schema.birthdays "articles" Request.birthdays)
        "articles" (Database.birthday "1990-05-17") (Database.birthday "2020-05-17") := by
  obtain ⟨q, hq⟩ : ∃ q, (Schema.birthdays.compiler {} fun _ => 0).compile "articles"
      Request.birthdays = .ok q := Compiler.exists_compile (by decide +kernel)
  have hunfolded : Filter.bornKnown.unfolded = Filter.bornKnown := rfl
  have hsplit : splitFunction "born" = (none, "born") ∧ Text.trim "born" = "born" ∧
      Text.trim "author" = "author" := by
    decide +kernel
  have hforward : Context.birthdays.startsExistential "articles" [] "author" = false := by
    decide +kernel
  have hleaves : Context.birthdays.leaves "articles" [] Filter.bornKnown =
      [.compared ["author"] "born" [⟨.null true, none⟩]] := by
    rw [Filter.bornKnown, Filter.of, Context.leaves, Context.clausesLeaves, Context.clausesLeaves,
      Context.clauseLeaves, Context.conditionLeaves, hforward, if_neg Bool.false_ne_true,
      List.append_nil, Context.leaves_compare, hsplit.2.2, List.nil_append]
  obtain ⟨hblind, -, htells⟩ := concealed_of_compile hq
  refine ⟨q, hq, fun comparisons hcompares => ?_, htells ?_ (by decide +kernel) _ _ ?_⟩
  · refine hblind Filter.bornKnown rfl "authors" "born" comparisons
      ⟨"born", .date, ["conceal"], none⟩ (hunfolded.symm ▸ hcompares) ?_ ?_ rfl
    · rw [hsplit.1]
    · rw [hsplit.1]
      rfl
  · intro f hf owner field comparisons function name declared hcompares hfunction
    obtain rfl : Filter.bornKnown = f := Option.some.inj hf
    rw [hunfolded] at hcompares
    cases hcompares with
    | leaf hmem =>
      rw [hleaves, List.mem_singleton] at hmem
      cases hmem
      rw [hsplit.2.1, hsplit.1] at hfunction
      cases hfunction
    | inside hmem =>
      rw [hleaves, List.mem_singleton] at hmem
      cases hmem
  · refine alikeDatabases_birthday (Context.not_reveals_birthdays fun owner link hfollows => ?_)
      (by decide) (by decide)
    obtain ⟨path, hpath, before, segment, halong, howner, hlink⟩ :=
      hfollows.exists_walked rfl hleaves (by rw [hsplit.2.1, hsplit.1]; simp)
    have hwalked : Context.birthdays.walkedPaths "articles" Request.birthdays =
        [["author", "born"]] := by
      decide +kernel
    rw [hwalked, List.mem_singleton] at hpath
    rw [hpath] at halong
    obtain ⟨rest, hrest⟩ := halong
    cases before with
    | nil =>
      cases hrest
      cases howner
      exact ⟨rfl, hlink⟩
    | cons first before =>
      have hlength := congrArg List.length hrest
      simp at hlength

/-- The year of a concealed birthday may be compared with any operator, and shows. -/
theorem tells_year_of_concealed :
    ∃ q, (Schema.birthdays.compiler {} fun _ => 0).compile "authors" Request.bornIn2020 = .ok q ∧
      (∃ f declared, Request.bornIn2020.filter = some f ∧
        Context.birthdays.Compares "authors" f.unfolded "authors" "year(born)"
          [⟨.equal false false, some (.number (.int 2020))⟩] ∧
        Schema.birthdays.field? "authors" (splitFunction "year(born)").2 = some declared ∧
        declared.isConcealed = true) ∧
      (Operator.equal false false).isBlind = false ∧
      AlikeDatabases (Context.birthdays.Reveals Schema.birthdays "authors" Request.bornIn2020)
        (Database.birthday "1990-05-17") (Database.birthday "2020-05-17") ∧
      ¬q.TellsAlike (Context.birthdays.Reveals Schema.birthdays "authors" Request.bornIn2020)
        "authors" (Database.birthday "1990-05-17") (Database.birthday "2020-05-17") := by
  obtain ⟨q, hq, htruths⟩ : ∃ q,
      (Schema.birthdays.compiler {} fun _ => 0).compile "authors" Request.bornIn2020 = .ok q ∧
        (q.truths (Database.birthday "1990-05-17"), q.truths (Database.birthday "2020-05-17")) =
          ([some .no], [some .yes]) :=
    Compiler.exists_compile_with (by decide +kernel)
  have hsplit : splitFunction "year(born)" = (some "year", "born") ∧
      Text.trim "year(born)" = "year(born)" := by
    decide +kernel
  have hleaves : Context.birthdays.leaves "authors" [] (Filter.unfolded (.of (.field "year(born)"
      (.compare [⟨.equal false false, some (.number (.int 2020))⟩])))) =
        [.compared [] "year(born)" [⟨.equal false false, some (.number (.int 2020))⟩]] :=
    Context.leaves_compare _ _ _ _
  refine ⟨q, hq, ⟨_, ⟨"born", .date, ["conceal"], none⟩, rfl, ?_, ?_, rfl⟩, rfl, ?_,
    fun htells => ?_⟩
  · have hmem := hleaves ▸ List.mem_singleton_self _
    have hcompares := Context.Compares.leaf hmem rfl
    rw [hsplit.2] at hcompares
    exact hcompares
  · rw [hsplit.1]
    rfl
  · refine alikeDatabases_birthday (Context.not_reveals_birthdays fun owner link hfollows => ?_)
      (by decide) (by decide)
    have hcount : FieldFunction.ofName? "year" ≠ some .count := by decide +kernel
    obtain ⟨path, hpath, before, segment, halong, -, -⟩ :=
      hfollows.exists_walked rfl hleaves (by rw [hsplit.2, hsplit.1]; simpa using hcount)
    have hwalked : Context.birthdays.walkedPaths "authors" Request.bornIn2020 =
        [["year(born)"]] := by
      decide +kernel
    rw [hwalked, List.mem_singleton] at hpath
    rw [hpath] at halong
    simp at halong
  · have hsame := htells.truths_eq
    obtain ⟨hearlier, hlater⟩ := Prod.mk.inj htruths
    rw [hearlier, hlater] at hsame
    cases hsame

end JsonSql
