import JsonSql.Proofs.Comparisons
import JsonSql.Proofs.Compiled
import JsonSql.Proofs.JoinedRows

set_option autoImplicit false

/-!
# Filters keep their meaning

On the tables that stand for a row, the condition of a plain filter has the truth value of the
filter on that row.  The induction is over the filter: a key that refers to a row moves on to the
row of its join, and a key of rows that refer back becomes an existential condition, whose own
statement has joins of its own.
-/

namespace JsonSql

open JsonSql.Sql

variable {E : Engine} {s : Schema} {db : Database E} {options : Options} {names : Nat → String}
  {collection : String}

/-- A statement with one projection returns a cell for each row that meets its condition. -/
theorem Scope.Tracks.output {scope : Scope} {k : Nat}
    (h : scope.Tracks s db names collection k) (item : Item) (hitem : item.isAggregate = false)
    (condition : Option Expr) (orders : List OrderItem) (window : Option Window)
    (outer : Tables E) :
    ∃ tablesOf : Row E → Tables E,
      (∀ row, Stands s db collection scope.hops row (tablesOf row)) ∧
      Query.output db outer
          ⟨[item], some ⟨collection, none⟩, scope.query.joins, condition, [], orders, window⟩ =
        ((db collection).filter fun row => meets db (tablesOf row) condition).map fun row =>
          [item.cell db [] (tablesOf row)] := by
  obtain ⟨tablesOf, htables⟩ := Classical.skolem.mp (h.joined outer)
  refine ⟨tablesOf, fun row => (htables row).2, ?_⟩
  have hjoined : ((db collection).flatMap fun row =>
      joinTables db ((collection, row) :: outer) scope.query.joins) =
        (db collection).map tablesOf := by
    simp only [fun row => (htables row).1, List.map_eq_flatMap]
  rw [output_select db outer hitem, hjoined, List.filter_map, List.map_map]
  rfl

/-- A filter joins what it asks about, so that one row stands beside each row of the collection,
and adds its condition to the statement. -/
theorem addFilter_tracks {inner several : Bool} {q : Query} {scope : Scope} {f : Filter}
    {c : Collection} {condition : Hops → Compile (Option Expr)} {k k' : Nat}
    (hinjective : Function.Injective names) (hkeys : s.HasKeys db)
    (hc : s.collection? collection = some c) (hjoins : q.joins = [])
    (hplain : f.isPlain s.relations collection true = true) (hsegments : f.IsUnfolded)
    (hgrows : ∀ hops, (condition hops).Grows) (havoids : s.AvoidsAliases names k')
    (h : ((s.context options names).addFilter inner collection { query := q } f condition).Gives k
      (scope, several) k') :
    ∃ (scope₁ : Scope) (k₁ : Nat) (e? : Option Expr), scope₁.Tracks s db names collection k₁ ∧
      (condition scope₁.hops).Gives k₁ e? k' ∧ scope.query = { q with
        joins := scope₁.query.joins
        condition := e?.elim q.condition fun e => (q.addCondition e).condition } := by
  obtain ⟨scope₁, k₁, e?, hjoin, he, -, hquery⟩ := Context.addFilter_gives h
  have htracks : scope₁.Tracks s db names collection k₁ :=
    (Scope.tracks_of_joins_eq_nil hjoins k).joinFilter hinjective hkeys hc hplain hsegments
      (havoids.mono (hgrows _ he)) hjoin
  have hsame := Context.sameButJoins_of_joinFilter hjoin (Context.sameButJoins_refl q)
  rw [Context.sameButJoins] at hsame
  refine ⟨scope₁, k₁, e?, htracks, he, ?_⟩
  rw [hquery]
  cases e? with
  | none => exact hsame
  | some e =>
    rw [hsame]
    rfl

/-! ## Existential conditions -/

/-- What the condition of a filter is to be: on the tables that stand for a row of the collection,
it has the truth value of the filter. -/
def KeepsMeaning (s : Schema) (db : Database E) (options : Options) (names : Nat → String)
    (collection : String) (f : Filter) (condition : Hops → Compile (Option Expr)) : Prop :=
  ∀ {hops : Hops} {e? : Option Expr} {k k' : Nat} {row : Row E} {tables : Tables E},
    (condition hops).Gives k e? k' → s.AvoidsAliases names k' → row ∈ db collection →
    Stands s db collection hops row tables →
    e?.map (Expr.truthOn db tables) = f.truth? s db options.dialect collection true row

/-- The keys of the related rows that meet a filter, none of which is null. -/
theorem output_relatedKeys {r : Relation} {c : Collection} {scope : Scope} {several : Bool}
    {f : Filter} {condition : Hops → Compile (Option Expr)} {k k' : Nat}
    (hinjective : Function.Injective names) (hkeys : s.HasKeys db)
    (hc : s.collection? r.collection = some c)
    (hplain : f.isPlain s.relations r.collection true = true)
    (hsegments : f.IsUnfolded) (hgrows : ∀ hops, (condition hops).Grows)
    (hcondition : KeepsMeaning s db options names r.collection f condition)
    (havoids : s.AvoidsAliases names k')
    (h : ((s.context options names).addFilter true r.collection
      { query := Context.relatedKeys.keys r } f condition).Gives k (scope, several) k')
    (outer : Tables E) :
    (scope.query.output db outer).map firstValue =
      ((db r.collection).filter fun row => (row r.field).isSome &&
        f.holds s db options.dialect r.collection row).map fun row => row r.field := by
  obtain ⟨scope₁, k₁, e?, htracks, he, hquery⟩ :=
    addFilter_tracks hinjective hkeys hc rfl hplain hsegments hgrows havoids h
  let known : Expr := .isNull (.of r.collection r.field) true
  let condition' : Expr := match e? with
    | some e => .both known.guarded e.guarded
    | none => known
  have hfinal : scope.query = ⟨[⟨.of r.collection r.field, none⟩], some ⟨r.collection, none⟩,
      scope₁.query.joins, some condition', [], [], none⟩ := by
    rw [hquery]
    cases e? <;> rfl
  obtain ⟨tablesOf, hstands, houtput⟩ := htracks.output
    ⟨.of r.collection r.field, none⟩ rfl (some condition') [] none outer
  have hvalue (row : Row E) :
      (Expr.of r.collection r.field).value db [] (tablesOf row) = row r.field := by
    rw [value_of, (hstands row).root]
  have hmeets (row : Row E) (hmem : row ∈ db r.collection) :
      meets db (tablesOf row) (some condition') = ((row r.field).isSome &&
        f.holds s db options.dialect r.collection row) := by
    have htruth := hcondition he havoids hmem (hstands row)
    rw [Bool.eq_iff_iff, meets_eq_true, Filter.holds, ← htruth]
    cases e? with
    | none => simp [condition', known, hvalue, Option.isSome_iff_ne_none]
    | some e => simp [condition', known, hvalue, Option.isSome_iff_ne_none]
  rw [hfinal, houtput, List.filter_congr hmeets, List.map_map]
  refine List.map_congr_left fun row _ => ?_
  exact hvalue row

/-- An existential condition is never unknown: it says whether some, or none, of the rows that
refer back meets the filter. -/
theorem truthOn_existential {r : Relation} {quantifier : Quantifier} {f : Filter}
    {condition : String → Hops → Compile (Option Expr)} {e : Expr} {k k' : Nat} {row : Row E}
    {tables : Tables E} (hinjective : Function.Injective names) (hkeys : s.HasKeys db)
    (hplain : f.isPlain s.relations r.collection true = true)
    (hsegments : f.IsUnfolded) (hgrows : ∀ related hops, (condition related hops).Grows)
    (hcondition : KeepsMeaning s db options names r.collection f (condition r.collection))
    (havoids : s.AvoidsAliases names k')
    (h : ((s.context options names).existential collection collection (.oneToMany r) quantifier f
      condition).Gives k e k')
    (hmem : row ∈ db collection) (hroot : rowOf tables collection = row) :
    e.truthOn db tables = quantifier.truth (someRefersBack s db collection r row
      (f.holds s db options.dialect r.collection)) := by
  obtain ⟨r', keys, polymorphic, scope, several, primary, k₁, hrelated, ⟨info, hinfo⟩, hfilter,
    hprimary, rfl⟩ := Context.existential_gives h
  obtain ⟨hresult, -⟩ := Compile.gives_pure.mp hrelated
  cases hresult
  obtain ⟨c₁, hc₁, hname, hprimaryOf, rfl⟩ := primary_context_gives hprimary
  obtain ⟨c₂, hc₂, -⟩ := Option.map_eq_some_iff.mp (Except.ok.inj hinfo)
  have houtput := output_relatedKeys hinjective hkeys hc₂ hplain hsegments (hgrows r.collection)
    hcondition havoids hfilter tables
  have hknown : (row primary).isSome := by
    rw [hname]
    exact (hkeys collection c₁ hc₁).1 row hmem
  have hsubject : (Expr.of collection primary).value db [] tables = row primary := by
    rw [value_of, hroot]
  have hamong : E.isAmong (row primary) ((scope.query.output db tables).map firstValue) =
      .ofBool (someRefersBack s db collection r row
        (f.holds s db options.dialect r.collection)) := by
    rw [houtput, Engine.isAmong_eq_ofBool E hknown]
    · rw [List.any_map, List.any_filter, someRefersBack, ← hprimaryOf]
      refine congrArg Truth.ofBool (congrArg (List.any (db r.collection)) (funext fun other => ?_))
      cases hsame : decide (E.same (row primary) (other r.field) = .yes) with
      | false => simp [hsame]
      | true => simp [hsame, E.isSome_of_same (of_decide_eq_true hsame)]
    · intro v hv
      obtain ⟨other, hother, rfl⟩ := List.mem_map.mp hv
      have hboth := (List.mem_filter.mp hother).2
      exact (Bool.and_eq_true_iff.mp hboth).1
  rw [if_neg Bool.false_ne_true, truthOn_inQuery, hsubject, hamong]
  cases quantifier with
  | some => rfl
  | none =>
    rw [Quantifier.truth]
    cases someRefersBack s db collection r row _ <;> rfl

/-! ## Conditions -/

theorem splitFunction_snd {segment : String} (h : (splitFunction segment).1 = none) :
    (splitFunction segment).2 = segment := by
  unfold splitFunction at h ⊢
  split
  · rfl
  · next hnot =>
    rw [if_neg hnot] at h
    split
    · next hfound =>
      rw [hfound] at h
      dsimp only at h
      split
      · rfl
      · next hname =>
        rw [if_neg hname] at h
        cases h
    · rfl

/-- Where a filter is asked: under a path of parents that leads from a row of the collection to
another row, on the tables that stand for the first one. -/
structure Asked (s : Schema) (db : Database E) (collection : String) (hops : Hops) (row : Row E)
    (tables : Tables E) (parents : List String) (current : String) (here : Row E) : Prop where
  member : row ∈ db collection
  stands : Stands s db collection hops row tables
  path : IsPath parents
  leads : walk s db (collection, row) parents = some (current, here)

namespace Asked

variable {hops : Hops} {row here : Row E} {tables : Tables E} {parents : List String}
  {current : String}

theorem root (hmember : row ∈ db collection) (hstands : Stands s db collection hops row tables) :
    Asked s db collection hops row tables [] collection row :=
  ⟨hmember, hstands, fun segment hsegment => (by cases hsegment), rfl⟩

theorem eq_of_nil (h : Asked s db collection hops row tables parents current here)
    (hparents : parents = []) : current = collection ∧ here = row := by
  have hleads := h.leads
  rw [hparents] at hleads
  cases hleads
  exact ⟨rfl, rfl⟩

/-- The place that the parents have led to stands for the row that is asked. -/
theorem place (h : Asked s db collection hops row tables parents current here) {path : String}
    {place : Place} (hplace : Context.placeOf hops collection parents path = .ok place) :
    place.collection = current ∧ rowOf tables place.table = here := by
  rcases Context.placeOf_eq_ok hplace with ⟨hparents, rfl⟩ | ⟨hparents, hop, hfound, rfl⟩
  · obtain ⟨hcurrent, hhere⟩ := h.eq_of_nil hparents
    exact ⟨hcurrent.symm, h.stands.root.trans hhere.symm⟩
  · have hhop := h.stands.hop parents hop hparents h.path hfound
    rw [h.leads] at hhop
    cases hhop
    exact ⟨rfl, rfl⟩

/-- A key that refers to a row leads on. -/
theorem next (h : Asked s db collection hops row tables parents current here) {key : String}
    {r : Relation} {target : String} (hkey : IsSegment key)
    (hlink : link s.relations current (Text.trim key) = .manyToOne r)
    (hrelated : r.related = some target) :
    Asked s db collection hops row tables (parents ++ [Text.trim key]) target
      (referencedRow s db r target here) := by
  refine ⟨h.member, h.stands, h.path.append hkey.trim, ?_⟩
  rw [walk_append, h.leads, Option.bind_some, walk, List.foldlM_cons, follow]
  simp [hlink, hrelated]

/-- Only a key of rows that refer back starts an existential condition. -/
theorem startsExistential (h : Asked s db collection hops row tables parents current here)
    (key : String) : (s.context options names).startsExistential collection parents key =
      (parents.isEmpty && (link s.relations current key).isToMany) :=
  startsExistential_eq (fun hparents => (h.eq_of_nil hparents).1) key

/-- A key of rows that refer back asks for some, or none, of them. -/
theorem quantified (h : Asked s db collection hops row tables parents current here)
    (hinjective : Function.Injective names) (hkeys : s.HasKeys db) {key : String} {r : Relation}
    {quantifier : Quantifier} {f : Filter} {e? : Option Expr} {k k' : Nat}
    {joined : Compile (Option Expr)}
    (hlink : plainLink? s.relations current parents.isEmpty key = some (.many r))
    (hplain : f.isPlain s.relations r.collection true = true) (hsegments : f.IsUnfolded)
    (hcondition : KeepsMeaning s db options names r.collection f fun hops =>
      (s.context options names).condition? hops r.collection [] f)
    (havoids : s.AvoidsAliases names k')
    (hgives : (if (s.context options names).startsExistential collection parents key then
        some <$> (s.context options names).existential collection collection
          ((s.context options names).link collection key) quantifier f
          fun related hops => (s.context options names).condition? hops related [] f
      else joined).Gives k e? k') :
    e?.map (Expr.truthOn db tables) = some (quantifier.truth (someRefersBack s db current r here
      (f.holds s db options.dialect r.collection))) := by
  obtain ⟨hroot, hmany⟩ := plainLink?_eq_many hlink
  have hstart : (parents.isEmpty && (link s.relations current key).isToMany) = true := by
    rw [hroot, hmany]
    rfl
  rw [h.startsExistential, if_pos hstart, Compile.gives_map] at hgives
  obtain ⟨e, he, rfl⟩ := hgives
  obtain ⟨rfl, rfl⟩ := h.eq_of_nil (List.isEmpty_iff.mp hroot)
  have hrows : (s.context options names).link current key = .oneToMany r := hmany
  rw [hrows] at he
  exact congrArg some (truthOn_existential hinjective hkeys hplain hsegments
    (fun related hops => Context.grows_condition? hops related [] f) hcondition havoids he
    h.member h.stands.root)

/-- Comparisons of a field without a function compare the value of the field in the row that the
parents lead to. -/
theorem compared (h : Asked s db collection hops row tables parents current here) {key : String}
    {comparisons : List Comparison} {e? : Option Expr} {k k' : Nat}
    (hplain : (splitFunction (Text.trim key)).1 = none)
    (hgives : ((s.context options names).fieldCondition? hops collection parents key
      (.compare comparisons)).Gives k e? k') :
    e?.map (Expr.truthOn db tables) = Truth.all? (comparisons.filterMap
      (Comparison.truth? E options.dialect (s.kindOf current (Text.trim key))
        (here (Text.trim key)))) := by
  rw [Context.fieldCondition?] at hgives
  split at hgives
  · simp at hgives
  · simp only [Compile.gives_bind, Compile.gives_lift] at hgives
    obtain ⟨column, k₁, hcolumn, hall, -⟩ := hgives
    obtain ⟨last, place, field, hlast, hplace, hfield, hcases⟩ := Context.column_gives hcolumn
    obtain rfl : Text.trim key = last := by simpa using hlast
    rw [List.dropLast_concat] at hplace
    rw [splitFunction_snd hplain] at hfield hcases
    obtain ⟨rfl, rfl⟩ := h.place hplace
    rcases hcases with ⟨-, -, -, rfl⟩ | ⟨function, e, hfunction, -⟩
    · have hkind : s.kindOf place.collection (Text.trim key) = field.type.valueKind := by
        rw [Schema.kindOf, Except.ok.inj hfield]
        rfl
      rw [Context.truthOn_compareAll? hall, value_of, hkind]
      rfl
    · rw [hplain] at hfunction
      cases hfunction

end Asked

mutual
/-- The condition of a plain filter has the truth value of the filter. -/
theorem truthOn_condition? {collection current : String} {hops : Hops} {row here : Row E}
    {tables : Tables E} {e? : Option Expr} {k k' : Nat} (hinjective : Function.Injective names)
    (hkeys : s.HasKeys db) (parents : List String) (f : Filter)
    (hasked : Asked s db collection hops row tables parents current here)
    (hplain : f.isPlain s.relations current parents.isEmpty = true) (hsegments : f.IsUnfolded)
    (havoids : s.AvoidsAliases names k')
    (h : ((s.context options names).condition? hops collection parents f).Gives k e? k') :
    e?.map (Expr.truthOn db tables) =
      f.truth? s db options.dialect current parents.isEmpty here := by
  obtain ⟨clauses⟩ := f
  rw [Filter.isPlain] at hplain
  rw [Filter.IsUnfolded] at hsegments
  rw [Context.condition?, Compile.gives_map] at h
  obtain ⟨parts, hparts, rfl⟩ := h
  rw [truthOn_conjunction?, Filter.truth?,
    truthOn_clauseConditions hinjective hkeys parents clauses hasked hplain hsegments havoids
      hparts]

theorem truthOn_clauseConditions {collection current : String} {hops : Hops} {row here : Row E}
    {tables : Tables E} {parts : List Expr} {k k' : Nat} (hinjective : Function.Injective names)
    (hkeys : s.HasKeys db) (parents : List String)
    (clauses : List Clause)
    (hasked : Asked s db collection hops row tables parents current here)
    (hplain : arePlainClauses s.relations current parents.isEmpty clauses = true)
    (hsegments : AreUnfoldedClauses clauses) (havoids : s.AvoidsAliases names k')
    (h : ((s.context options names).clauseConditions hops collection parents clauses).Gives k
      parts k') :
    parts.map (Expr.truthOn db tables) =
      clauseTruths s db options.dialect current parents.isEmpty here clauses := by
  cases clauses with
  | nil =>
    rw [Context.clauseConditions, Compile.gives_pure] at h
    rw [h.1, clauseTruths]
    rfl
  | cons clause rest =>
    rw [arePlainClauses, Bool.and_eq_true] at hplain
    rw [AreUnfoldedClauses] at hsegments
    simp only [Context.clauseConditions, Compile.gives_bind, Compile.gives_pure] at h
    obtain ⟨part, k₁, hpart, parts₁, k₂, hrest, rfl, rfl⟩ := h
    have hle := Context.grows_clauseConditions _ _ _ _ hrest
    rw [clauseTruths, List.map_append,
      truthOn_clauseConditions hinjective hkeys parents rest hasked hplain.2 hsegments.2 havoids
        hrest,
      ← truthOn_clauseCondition? hinjective hkeys parents clause hasked hplain.1 hsegments.1
        (havoids.mono hle) hpart]
    cases part <;> rfl

theorem truthOn_clauseCondition? {collection current : String} {hops : Hops} {row here : Row E}
    {tables : Tables E} {e? : Option Expr} {k k' : Nat} (hinjective : Function.Injective names)
    (hkeys : s.HasKeys db) (parents : List String) (clause : Clause)
    (hasked : Asked s db collection hops row tables parents current here)
    (hplain : clause.isPlain s.relations current parents.isEmpty = true)
    (hsegments : clause.IsUnfolded) (havoids : s.AvoidsAliases names k')
    (h : ((s.context options names).clauseCondition? hops collection parents clause).Gives k
      e? k') :
    e?.map (Expr.truthOn db tables) =
      clause.truth? s db options.dialect current parents.isEmpty here := by
  cases clause with
  | all filters =>
    rw [Clause.isPlain] at hplain
    rw [Clause.IsUnfolded] at hsegments
    rw [Context.clauseCondition?, Compile.gives_map] at h
    obtain ⟨parts, hparts, rfl⟩ := h
    rw [truthOn_conjunction?, Clause.truth?,
      truthOn_groupConditions hinjective hkeys parents filters hasked hplain hsegments havoids
        hparts]
  | any filters =>
    rw [Clause.isPlain, Bool.or_eq_true] at hplain
    rw [Clause.IsUnfolded] at hsegments
    rw [Context.clauseCondition?] at h
    rw [Clause.truth?]
    split at h
    · next hempty =>
      obtain ⟨rfl, -⟩ := Compile.gives_pure.mp h
      rw [if_pos hempty]
      rfl
    · next hrestricts =>
      rw [Compile.gives_map] at h
      obtain ⟨parts, hparts, rfl⟩ := h
      rw [if_neg hrestricts, truthOn_disjunction?,
        truthOn_groupConditions hinjective hkeys parents filters hasked
          (hplain.resolve_left hrestricts) hsegments havoids hparts]
  | field key condition =>
    rw [Clause.isPlain] at hplain
    rw [Clause.IsUnfolded] at hsegments
    rw [Context.clauseCondition?] at h
    rw [Clause.truth?]
    exact truthOn_fieldCondition? hinjective hkeys parents key condition hasked hplain
      hsegments.1 hsegments.2 havoids h

theorem truthOn_groupConditions {collection current : String} {hops : Hops} {row here : Row E}
    {tables : Tables E} {parts : List Expr} {k k' : Nat} (hinjective : Function.Injective names)
    (hkeys : s.HasKeys db) (parents : List String)
    (filters : List Filter)
    (hasked : Asked s db collection hops row tables parents current here)
    (hplain : arePlain s.relations current parents.isEmpty filters = true)
    (hsegments : AreUnfolded filters) (havoids : s.AvoidsAliases names k')
    (h : ((s.context options names).groupConditions hops collection parents filters).Gives k
      parts k') :
    parts.map (Expr.truthOn db tables) =
      filterTruths s db options.dialect current parents.isEmpty here filters := by
  cases filters with
  | nil =>
    rw [Context.groupConditions, Compile.gives_pure] at h
    rw [h.1, filterTruths]
    rfl
  | cons f rest =>
    rw [arePlain, Bool.and_eq_true] at hplain
    rw [AreUnfolded] at hsegments
    simp only [Context.groupConditions, Compile.gives_bind, Compile.gives_pure] at h
    obtain ⟨part, k₁, hpart, parts₁, k₂, hrest, rfl, rfl⟩ := h
    have hle := Context.grows_groupConditions _ _ _ _ hrest
    rw [filterTruths, List.map_append,
      truthOn_groupConditions hinjective hkeys parents rest hasked hplain.2 hsegments.2 havoids
        hrest,
      ← truthOn_condition? hinjective hkeys parents f hasked hplain.1 hsegments.1
        (havoids.mono hle) hpart]
    cases part with
    | none => rfl
    | some e => exact congrArg (· :: _) (truthOn_paren db tables e)

theorem truthOn_fieldCondition? {collection current : String} {hops : Hops} {row here : Row E}
    {tables : Tables E} {e? : Option Expr} {k k' : Nat} (hinjective : Function.Injective names)
    (hkeys : s.HasKeys db) (parents : List String) (key : String)
    (condition : FieldCondition)
    (hasked : Asked s db collection hops row tables parents current here)
    (hplain : condition.isPlain s.relations current parents.isEmpty key = true)
    (hkey : IsSegment key) (hsegments : condition.IsUnfolded)
    (havoids : s.AvoidsAliases names k')
    (h : ((s.context options names).fieldCondition? hops collection parents key condition).Gives k
      e? k') :
    e?.map (Expr.truthOn db tables) =
      condition.truth? s db options.dialect current parents.isEmpty here key := by
  cases condition with
  | compare comparisons =>
    rw [FieldCondition.isPlain, Option.isNone_iff_eq_none] at hplain
    rw [FieldCondition.truth?]
    exact hasked.compared hplain h
  | nested f =>
    rw [FieldCondition.isPlain] at hplain
    rw [FieldCondition.IsUnfolded] at hsegments
    rw [Context.fieldCondition?] at h
    rw [FieldCondition.truth?]
    split at hplain
    · next r target hlink =>
      obtain ⟨hjoined, hone, hrelated⟩ := plainLink?_eq_one hlink
      rw [hasked.startsExistential, hjoined, if_neg Bool.false_ne_true] at h
      have hbelow : (parents ++ [Text.trim key]).isEmpty = false := by simp
      have hinner := truthOn_condition? hinjective hkeys (parents ++ [Text.trim key]) f
        (hasked.next hkey hone hrelated) (by rw [hbelow]; exact hplain) hsegments havoids h
      rw [hbelow] at hinner
      exact hinner
    · next r hlink =>
      exact hasked.quantified hinjective hkeys hlink hplain hsegments
        (fun hgives havoids hmember hstands => truthOn_condition? hinjective hkeys [] f
          (.root hmember hstands) hplain hsegments havoids hgives) havoids h
    · cases hplain
  | quantified quantifier f =>
    rw [FieldCondition.isPlain] at hplain
    rw [FieldCondition.IsUnfolded] at hsegments
    rw [Context.fieldCondition?] at h
    rw [FieldCondition.truth?]
    split at hplain
    · next r hlink =>
      exact hasked.quantified hinjective hkeys hlink hplain hsegments
        (fun hgives havoids hmember hstands => truthOn_condition? hinjective hkeys [] f
          (.root hmember hstands) hplain hsegments havoids hgives) havoids h
    · cases hplain
end

end JsonSql
