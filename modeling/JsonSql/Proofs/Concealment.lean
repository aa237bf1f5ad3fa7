import JsonSql.Proofs.Mirrored

set_option autoImplicit false

/-!
# Hidden values do not show in conditions

Where nothing but shown columns is read by functions and by the keys of links, the predicates of a
condition have the same truth values on rows that differ in hidden values only
(`truthOn_condition?_eq`): a concealed field itself is asked about blindly, and every other column
is shown.
-/

namespace JsonSql

open JsonSql.Calendar
open JsonSql.Sql

variable {E : Engine} {s : Schema} {options : Options} {names : Nat → String}
  {shown : String → String → Prop} {db db' : Database E} {tables tables' : Tables E}
  {collection : String} {hops : Hops} {k k' : Nat}

/-! ## Columns -/

theorem Schema.mem_fieldsOf {s : Schema} {collection name : String} {f : Field}
    (h : s.field? collection name = some f) : f ∈ s.fieldsOf collection ∧ f.name = name := by
  obtain ⟨declared, hdeclared, hfound⟩ := Option.bind_eq_some_iff.mp h
  rw [Schema.fieldsOf, hdeclared, Option.map_some, Option.getD_some]
  exact ⟨List.mem_of_find?_eq_some hfound, by simpa using List.find?_some hfound⟩

/-- Every field that is not concealed is shown. -/
def Schema.ShowsFields (s : Schema) (shown : String → String → Prop) : Prop :=
  ∀ collection, ∀ f ∈ s.fieldsOf collection, f.isConcealed = false → shown collection f.name

/-- A count of rows depends on keys only. -/
theorem value_countRows?_eq {owner table : String} {link : Link} {e : Expr}
    (hdb : AlikeDatabases shown db db') (hkeys : link.KeysShown s shown owner)
    (halike : AlikeRows shown owner (rowOf tables table) (rowOf tables' table))
    (hfresh : table ≠ names k)
    (h : ((s.context options names).countRows? owner table link).Gives k (some e) k') :
    e.value db [] tables = e.value db' [] tables' := by
  obtain ⟨r, primary, condition, hprimary, -, rfl, -, hcondition⟩ := Context.countRows?_gives h
  obtain ⟨-, -, -, rfl, -⟩ := primary_context_gives hprimary
  rw [Schema.context_names] at hcondition ⊢
  have hmeets (row row' : Row E) (hrow : AlikeRows shown r.collection row row') :
      condition.truthOn db ((names k, row) :: tables) =
        condition.truthOn db' ((names k, row') :: tables') := by
    have hnew : AlikeRows shown r.collection (rowOf ((names k, row) :: tables) (names k))
        (rowOf ((names k, row') :: tables') (names k)) := by
      rw [rowOf_cons_self, rowOf_cons_self]
      exact hrow
    have hold : AlikeRows shown owner (rowOf ((names k, row) :: tables) table)
        (rowOf ((names k, row') :: tables') table) := by
      rw [rowOf_cons_of_ne hfresh, rowOf_cons_of_ne hfresh]
      exact halike
    rcases hcondition with ⟨rfl, rfl⟩ | ⟨column, rfl, hcolumn, rfl⟩
    · exact truthOn_equals_eq (hnew.value_of_eq (hkeys _ _ (.field rfl)))
        (hold.value_of_eq (hkeys _ _ (.primary rfl)))
    · exact truthOn_refersTo_eq (hnew.value_of_eq (hkeys _ _ (.discriminator rfl hcolumn)))
        (hnew.value_of_eq (hkeys _ _ (.field rfl))) (hold.value_of_eq (hkeys _ _ (.primary rfl)))
  rw [value_countRows, value_countRows, (hdb.forall₂_filter hmeets).length_eq]

/-- A function of a shown column depends on it only, unless it counts rows. -/
theorem value_applyFunction_eq {place : Place} {function path field : String} {type : FieldType}
    {e : Expr} (hdb : AlikeDatabases shown db db')
    (halike : AlikeRows shown place.collection (rowOf tables place.table)
      (rowOf tables' place.table))
    (hfield : shown place.collection field)
    (hcounted : FieldFunction.ofName? function = some .count → k < k' →
      ((s.context options names).link place.collection field).KeysShown s shown place.collection ∧
        place.table ≠ names k)
    (h : ((s.context options names).applyFunction place function path field type).Gives k e k') :
    e.value db [] tables = e.value db' [] tables' := by
  have hvalue : (Expr.of place.table field).value db [] tables =
      (Expr.of place.table field).value db' [] tables' := halike.value_of_eq hfield
  rcases Context.applyFunction_gives h with ⟨part, kind, rfl, -⟩ | ⟨hlength, -⟩ | ⟨hcount, hrows⟩
  · exact value_datePart_eq _ part kind hvalue
  · exact value_jsonArrayLength?_eq hlength hlength hvalue
  · obtain ⟨-, -, -, -, hnext, -⟩ := Context.countRows?_gives hrows
    obtain ⟨hkeys, hfresh⟩ := hcounted hcount (by omega)
    exact value_countRows?_eq hdb hkeys halike hfresh hrows

/-! ## Filters -/

/-- A filter on a collection reads no concealed field through a function, and follows links with
shown keys only. -/
structure Context.IsDiscreet (c : Context) (s : Schema) (shown : String → String → Prop)
    (collection : String) (f : Filter) : Prop where
  keys : ∀ owner link, c.Follows collection f owner link → link.KeysShown s shown owner
  plain : ∀ owner field comparisons function name declared,
    c.Compares collection f owner field comparisons →
    splitFunction field = (some function, name) → s.field? owner name = some declared →
    declared.isConcealed = false

namespace Context.IsDiscreet

variable {c : Context} {f : Filter}

theorem along (h : c.IsDiscreet s shown collection f) :
    ∀ path ∈ c.filterPaths collection [] f, c.KeysShownAlong s shown collection path := by
  intro path hpath before segment owner halong howner
  exact h.keys owner _ (.along hpath halong howner)

theorem inside {parents : List String} {key owner : String} {quantifier : Quantifier}
    {g : Filter} {link : Link} {r : Relation} (h : c.IsDiscreet s shown collection f)
    (hleaf : .related parents key quantifier g ∈ c.leaves collection [] f)
    (hlink : c.relatedLink? collection parents key = some (owner, link))
    (hrelation : link.relation? = some r) : c.IsDiscreet s shown r.collection g := by
  refine ⟨fun _ _ hfollows => h.keys _ _ (.inside hleaf hlink hrelation hfollows), ?_⟩
  intro _ _ _ _ _ _ hcompares
  exact h.plain _ _ _ _ _ _ (.inside hleaf hlink hrelation hcompares)

end Context.IsDiscreet

/-- Comparisons of a column give the same truth values: either it is shown, or they are blind. -/
theorem truthOn_compared_eq {declared : Collection} {f : Filter} {parents : List String}
    {key : String} {comparisons : List Comparison} {e? : Option Expr}
    (hinjective : Function.Injective names) (hdb : AlikeDatabases shown db db')
    (hshown : s.ShowsFields shown) (hc : s.collection? collection = some declared)
    (havoids : s.AvoidsAliases names k')
    (hdiscreet : (s.context options names).IsDiscreet s shown collection f)
    (hleaf : .compared parents key comparisons ∈
      (s.context options names).leaves collection [] f) (hparents : IsPath parents)
    (hled : hops.Led (s.context options names) collection k)
    (htwins : Twins shown collection hops tables tables')
    (h : ((s.context options names).fieldCondition? hops collection parents key
      (.compare comparisons)).Gives k e? k') :
    ∀ p ∈ e?.toList.flatMap Expr.predicates, p.truthOn db tables = p.truthOn db' tables' := by
  intro p hp
  obtain ⟨column, hcolumn, hall⟩ := Context.compared_gives h
  obtain ⟨comparison, hmember, hcomparison⟩ := Context.mem_predicates_of_compareAll? hall hp
  obtain ⟨values, hpredicate⟩ := Context.compare?_eq_ok_some hcomparison
  obtain ⟨place, field, hplace, hfield, hkind⟩ := Context.column_of_compared hcolumn
  have hfound : s.field? place.collection (splitFunction (Text.trim key)).2 = some field :=
    Except.ok.inj hfield
  obtain ⟨hmem, hname⟩ := Schema.mem_fieldsOf hfound
  have halike := htwins.placeOf hplace
  have howner := hled.placeOf hparents hplace
  rcases hkind with ⟨-, hconcealed, hexpr⟩ | ⟨function, hfunction, happlied⟩
  · cases hhidden : field.isConcealed with
    | false =>
      have hcolumn := hname ▸ hshown _ field hmem hhidden
      rw [hexpr] at hpredicate
      exact (Context.isPredicate_of_predicate? hpredicate).truthOn_eq
        (halike.value_of_eq hcolumn)
    | true =>
      have hblind := Context.isBlind_of_compareAll? hall (hconcealed.trans hhidden) comparison
        hmember
      refine truthOn_eq_of_isBlind hblind hpredicate ?_
      rw [hexpr, value_of, value_of]
      exact (halike _).imp id And.right
  · have hsplit : splitFunction (Text.trim key) =
        (some function, (splitFunction (Text.trim key)).2) := by rw [← hfunction]
    have hplain := hdiscreet.plain _ _ _ _ _ _ (.leaf hleaf howner) hsplit hfound
    have hcolumn := hname ▸ hshown _ field hmem hplain
    refine (Context.isPredicate_of_predicate? hpredicate).truthOn_eq
      (value_applyFunction_eq hdb halike hcolumn (fun hcount hissues => ⟨?_, ?_⟩) happlied)
    · exact hdiscreet.keys _ _ (.counted hleaf howner hsplit hcount)
    · rcases Context.placeOf_eq_ok hplace with ⟨-, rfl⟩ | ⟨-, hop, hhop, rfl⟩
      · exact havoids.ne hissues hc
      · exact hled.name_ne hinjective hhop

/-! ## Existential conditions -/

/-- Whether a related row refers to a row at all depends on keys only. -/
theorem IsReferring.truthOn_eq {owner : String} {link : Link} {r : Relation} {polymorphic : Bool}
    {known : Expr} (h : IsReferring owner link r polymorphic known)
    (hkeys : link.KeysShown s shown owner)
    (halike : AlikeRows shown r.collection (rowOf tables r.collection)
      (rowOf tables' r.collection)) :
    known.truthOn db tables = known.truthOn db' tables' := by
  cases h with
  | plain r =>
    rw [truthOn_isNull, truthOn_isNull, halike.value_of_eq (hkeys _ _ (.field rfl))]
  | @polymorphic r column hcolumn =>
    rw [truthOn_both, truthOn_both, truthOn_isNull, truthOn_isNull,
      halike.value_of_eq (hkeys _ _ (.field rfl)),
      truthOn_equals_eq (halike.value_of_eq (hkeys _ _ (.discriminator rfl hcolumn))) rfl]

theorem IsReferring.referred?_eq {owner : String} {link : Link} {r : Relation} {polymorphic : Bool}
    {known : Expr} (h : IsReferring owner link r polymorphic known) :
    link.referred? owner = some owner := by
  cases h <;> rfl

theorem truthOn_and?_eq {known : Expr} {e? : Option Expr}
    (hknown : known.truthOn db tables = known.truthOn db' tables')
    (he : ∀ p ∈ e?.toList.flatMap Expr.predicates, p.truthOn db tables = p.truthOn db' tables') :
    (known.and? e?).truthOn db tables = (known.and? e?).truthOn db' tables' := by
  cases e? with
  | none => exact hknown
  | some e =>
    rw [Option.toList_some, List.flatMap_singleton] at he
    rw [Expr.and?, truthOn_both, truthOn_both, truthOn_guarded, truthOn_guarded, truthOn_guarded,
      truthOn_guarded, hknown, truthOn_eq_of_predicates he]

/-- The keys of related rows are the same where their condition is. -/
theorem output_keysWith_eq {r : Relation} {scope : Scope} {condition : Expr}
    (hdb : AlikeDatabases shown db db') (hmirrored : scope.Mirrored shown db db' r.collection)
    (hcondition : ∀ t t' : Tables E, Twins shown r.collection scope.hops t t' →
      condition.truthOn db t = condition.truthOn db' t')
    (hfield : shown r.collection r.field) (outer outer' : Tables E) :
    (r.keysWith scope.query.joins condition).output db outer =
      (r.keysWith scope.query.joins condition).output db' outer' := by
  rw [Relation.keysWith, output_select db outer rfl, output_select db' outer' rfl]
  refine map_filter_eq_of_forall₂ (hmirrored.rows hdb outer outer') (fun t t' htwins => ?_)
    fun t t' htwins => ?_
  · rw [Bool.eq_iff_iff, meets_eq_true, meets_eq_true, hcondition t t' htwins]
  · have hvalue : (Expr.of r.collection r.field).value db [] t =
        (Expr.of r.collection r.field).value db' [] t' := htwins.root.value_of_eq hfield
    exact congrArg (fun v => [Cell.value v]) hvalue

/-- The predicates of the condition of a filter have the same truth values on rows that correspond.
The induction is on the size of the filter, for the filters about related rows. -/
theorem truthOn_condition?_eq (hinjective : Function.Injective names)
    (hdb : AlikeDatabases shown db db') (hshown : s.ShowsFields shown) (size : Nat) :
    ∀ {f : Filter} {collection : String} {declared : Collection} {hops : Hops}
      {e? : Option Expr} {k k' : Nat} {tables tables' : Tables E}, sizeOf f = size →
      s.collection? collection = some declared → f.IsUnfolded → s.AvoidsAliases names k' →
      (s.context options names).IsDiscreet s shown collection f →
      hops.Led (s.context options names) collection k →
      Twins shown collection hops tables tables' →
      ((s.context options names).condition? hops collection [] f).Gives k e? k' →
      ∀ p ∈ e?.toList.flatMap Expr.predicates, p.truthOn db tables = p.truthOn db' tables' := by
  induction size using Nat.strongRecOn with
  | ind size ih =>
  intro f collection declared hops e? k k' tables tables' hsize hc hf havoids hdiscreet hled htwins
    h p hp
  obtain ⟨leaf, hleaf, part?, k₁, k₂, hle, hle', hpart, hp⟩ :=
    (Context.leavesGive_condition? [] f h).of_mem hp
  have hunfolded := Context.isUnfolded_of_mem_leaves f isPath_nil hf leaf hleaf
  cases leaf with
  | compared parents key comparisons =>
    exact truthOn_compared_eq hinjective hdb hshown hc (havoids.mono hle') hdiscreet hleaf
      hunfolded.1 (hled.mono hle) htwins hpart p hp
  | related parents key quantifier g =>
    obtain ⟨owner, table, link, r, polymorphic, known, scope, several, inner?, primary, k₃,
      hlink, hasked, hreferring, ⟨info, hinfo⟩, hjoin, hinner, hprimary, rfl⟩ :=
      Context.related_gives hunfolded.1 (hled.mono hle) hpart
    rw [Option.toList_some, List.flatMap_singleton, predicates_inQuery, List.mem_singleton] at hp
    rw [hp]
    obtain ⟨-, -, -, rfl, -⟩ := primary_context_gives hprimary
    obtain ⟨related, hrelated, -⟩ := Option.map_eq_some_iff.mp (Except.ok.inj hinfo)
    have hrelation := hreferring.relation?_eq
    have hbelow := hdiscreet.inside hleaf hlink hrelation
    have hkeys : link.KeysShown s shown owner := hdiscreet.keys _ _ (.asked hleaf hlink)
    have hgrows := Context.grows_condition? _ _ _ _ hinner
    have hstart : Hops.Led (s.context options names) r.collection {} k₁ := .empty k₁
    have hmirrored : scope.Mirrored shown db db' r.collection :=
      (Scope.Mirrored.ofNil (q := r.keysWith [] known) rfl).joinFilter hinjective hdb hrelated
        (havoids.mono (by omega)) hunfolded.2.2 hstart hbelow.along hjoin
    have hcondition (t t' : Tables E) (htwins : Twins shown r.collection scope.hops t t') :
        (known.and? inner?).truthOn db t = (known.and? inner?).truthOn db' t' := by
      refine truthOn_and?_eq (hreferring.truthOn_eq hkeys htwins.root) fun p hp => ?_
      exact ih (sizeOf g) (hsize ▸ Context.sizeOf_lt_of_mem_leaves f hleaf) rfl hrelated
        hunfolded.2.2 (havoids.mono hle') hbelow (hstart.joinFilter hunfolded.2.2 hjoin) htwins
        hinner p hp
    have hkey : (Expr.of table (s.primaryOf owner)).value db [] tables =
        (Expr.of table (s.primaryOf owner)).value db' [] tables' :=
      (htwins.asked hasked).value_of_eq (hkeys _ _ (.primary hreferring.referred?_eq))
    have hsubject : (if polymorphic then .cast (.of table (s.primaryOf owner)) .text
          else .of table (s.primaryOf owner) : Expr).value db [] tables =
        (if polymorphic then .cast (.of table (s.primaryOf owner)) .text
          else .of table (s.primaryOf owner) : Expr).value db' [] tables' := by
      cases polymorphic with
      | false => exact hkey
      | true => rw [if_pos rfl, value_cast, value_cast, hkey]
    rw [truthOn_inQuery, truthOn_inQuery, hsubject,
      output_keysWith_eq hdb hmirrored hcondition (hkeys _ _ (.field hrelation)) tables tables']

end JsonSql
