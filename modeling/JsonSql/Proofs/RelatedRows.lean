import JsonSql.Proofs.Agreement
import JsonSql.Proofs.Existential
import JsonSql.Proofs.Issued
import JsonSql.Proofs.Selection

set_option autoImplicit false

/-!
# Existential conditions and related rows

The keys of an existential condition are those of the related rows that the filter selects, none of
which is null.  So at the root, where the key of the row is known, the condition says whether some,
or none, of the rows that refer back is selected, and is never unknown.
-/

namespace JsonSql

open JsonSql.Sql

variable {E : Engine} {s : Schema} {db : Database E} {options : Options} {names : Nat → String}
  {collection : String}

/-! ## Rows that refer back -/

/-- A row refers to some row of a collection along a link back to it: its key is known and, if it
is polymorphic, is one of that collection. -/
inductive RefersToSome (collection : String) (other : Row E) : Link → Prop
  | plain {r : Relation} : (other r.field).isSome → RefersToSome collection other (.oneToMany r)
  | polymorphic {r : Relation} {column : String} : r.info.discriminator = some column →
      (other r.field).isSome → E.same (other column) (E.text collection) = .yes →
      RefersToSome collection other (.oneToAny r)

/-- A row refers back to a row of a collection along a link: its key is that of the row, as a text
where it is polymorphic. -/
inductive RefersBack (s : Schema) (collection : String) (row other : Row E) : Link → Prop
  | plain {r : Relation} : E.same (row (s.primaryOf collection)) (other r.field) = .yes →
      RefersBack s collection row other (.oneToMany r)
  | polymorphic {r : Relation} {column : String} : r.info.discriminator = some column →
      E.same (other column) (E.text collection) = .yes →
      E.same ((row (s.primaryOf collection)).bind (E.cast .text)) (other r.field) = .yes →
      RefersBack s collection row other (.oneToAny r)

/-- The key of a row as the rows that refer back to it spell it. -/
def spelledKey (polymorphic : Bool) (key : E.Value) : E.Value :=
  if polymorphic then key.bind (E.cast .text) else key

namespace IsReferring

variable {link : Link} {r : Relation} {polymorphic : Bool} {known : Expr}

/-- The condition that a row refers to some row of the collection. -/
theorem truthOn_eq_yes (h : IsReferring collection link r polymorphic known)
    (tables : Tables E) :
    known.truthOn db tables = .yes ↔
      RefersToSome collection (rowOf tables r.collection) link := by
  cases h with
  | plain r =>
    rw [truthOn_isKnown, value_of]
    exact ⟨.plain, fun | .plain hknown => hknown⟩
  | @polymorphic r column hcolumn =>
    rw [truthOn_both, Truth.and_eq_yes, truthOn_isKnown, value_of, truthOn_equals, value_of,
      value_string]
    constructor
    · rintro ⟨hknown, hsame⟩
      exact .polymorphic hcolumn hknown hsame
    · rintro (_ | ⟨hfound, hknown, hsame⟩)
      obtain rfl := Option.some.inj (hfound.symm.trans hcolumn)
      exact ⟨hknown, hsame⟩

theorem isSome_of_refersToSome (h : IsReferring collection link r polymorphic known)
    {other : Row E} (hother : RefersToSome collection other link) : (other r.field).isSome := by
  cases h <;> cases hother <;> assumption

/-- A row refers back to a row if it refers to some row, and by the key of that one. -/
theorem refersBack_iff (h : IsReferring collection link r polymorphic known)
    (row other : Row E) :
    RefersBack s collection row other link ↔ RefersToSome collection other link ∧
      E.same (spelledKey polymorphic (row (s.primaryOf collection))) (other r.field) = .yes := by
  constructor
  · intro hback
    cases h with
    | plain r =>
      obtain ⟨hsame⟩ := hback
      exact ⟨.plain (E.isSome_of_same hsame), hsame⟩
    | polymorphic r _ =>
      obtain _ | ⟨hcolumn, hcollection, hsame⟩ := hback
      exact ⟨.polymorphic hcolumn (E.isSome_of_same hsame) hcollection, hsame⟩
  · rintro ⟨hother, hsame⟩
    cases h with
    | plain r => exact .plain hsame
    | polymorphic r _ =>
      obtain _ | ⟨hcolumn, -, hcollection⟩ := hother
      exact .polymorphic hcolumn hcollection hsame

end IsReferring

/-! ## Rows that a filter selects -/

/-- The rows of a collection with joins and under a condition. -/
def selectedRows (collection : String) (joins : List Join) (condition : Option Expr) : Query where
  items := [⟨.allColumns (some collection), none⟩]
  source := some ⟨collection, none⟩
  joins
  condition

/-- The statement of the rows that a filter selects, with the joins that the filter has in an
existential condition. -/
def Context.selection (c : Context) (collection : String) (f : Filter) : Compile Query :=
  (fun added => added.1.query) <$> c.addFilter true collection
    { query := selectedRows collection [] none } f fun hops => c.condition? hops collection [] f

/-- The selection has the joins and the condition of the filter. -/
theorem Context.selection_gives {c : Context} {q : Query} {f : Filter} {scope : Scope}
    {several : Bool} {e? : Option Expr} {k k₁ k' : Nat}
    (hjoins : q.joins = [])
    (hjoin : (c.joinFilter true collection [] { query := q } f).Gives k (scope, several) k₁)
    (he : (c.condition? scope.hops collection [] f).Gives k₁ e? k') :
    (c.selection collection f).Gives k
      (selectedRows collection scope.query.joins (e?.map Expr.guarded)) k' := by
  have hstart : ({ query := selectedRows collection [] none } : Scope) =
      Scope.onto { query := q } (selectedRows collection [] none) := by
    rw [Scope.onto, hjoins]
    rfl
  have hjoined : (c.joinFilter true collection []
      { query := selectedRows collection [] none } f).Gives k
        (scope.onto (selectedRows collection [] none), several) k₁ := by
    rw [hstart, joinFilter_onto, Compile.gives_map]
    exact ⟨(scope, several), hjoin, rfl⟩
  simp only [selection, addFilter, restricted, Compile.gives_map, Compile.gives_bind]
  cases e? with
  | none =>
    exact ⟨_, ⟨_, k₁, hjoined, none, k', he, Compile.gives_pure.mpr ⟨rfl, rfl⟩⟩, rfl⟩
  | some e =>
    exact ⟨_, ⟨_, k₁, hjoined, some e, k', he, Compile.gives_pure.mpr ⟨rfl, rfl⟩⟩, rfl⟩

/-- The selection of a plain filter is the rows that meet the filter, each once. -/
theorem output_of_selection {f : Filter} {c : Collection} {q : Query} {k k' : Nat}
    (hinjective : Function.Injective names) (hkeys : s.HasKeys db)
    (hc : s.collection? collection = some c) (hsegments : f.IsUnfolded)
    (hplain : f.isPlain s.relations collection true = true) (havoids : s.AvoidsAliases names k')
    (h : ((s.context options names).selection collection f).Gives k q k') :
    q.output db [] = ((db collection).filter
      (f.holds s db options.dialect collection)).map (fun row => [.row row]) := by
  obtain ⟨⟨scope, several⟩, hadded, rfl⟩ := Compile.gives_map.mp h
  exact (output_of_addFilter hinjective hkeys hc hsegments hplain havoids hadded).1

/-! ## Keys of related rows -/

/-- The joins of a table leave the rows of tables alone that go by other names. -/
theorem rowOf_of_mem_joinTables {joins : List Join} {name : String} {tables joined : Tables E}
    (hname : name ∉ joinNames joins) (h : joined ∈ joinTables db tables joins) :
    rowOf joined name = rowOf tables name := by
  induction joins generalizing tables with
  | nil =>
    rw [joinTables_nil, List.mem_singleton] at h
    rw [h]
  | cons join rest ih =>
    obtain ⟨target, condition⟩ := join
    rw [joinNames, List.map_cons, List.mem_cons, not_or] at hname
    rw [joinTables, List.mem_flatMap] at h
    obtain ⟨next, hnext, hjoined⟩ := h
    rw [join_tables_eq, List.mem_map] at hnext
    obtain ⟨row, -, rfl⟩ := hnext
    rw [ih hname.2 hjoined, rowOf_cons_of_ne hname.1]

theorem truthOn_and? (known : Expr) (e? : Option Expr) (tables : Tables E) :
    (known.and? e?).truthOn db tables = .yes ↔
      known.truthOn db tables = .yes ∧ meets db tables (e?.map Expr.guarded) = true := by
  cases e? with
  | none => simp [Expr.and?, meets]
  | some e => rw [Expr.and?, truthOn_both, Truth.and_eq_yes, truthOn_guarded, Option.map_some,
      meets_eq_true]

/-- The keys of an existential condition are those of the selected rows that refer to some row. -/
theorem mem_output_keysWith {link : Link} {r : Relation} {polymorphic : Bool} {known : Expr}
    {joins : List Join} {e? : Option Expr}
    (hreferring : IsReferring collection link r polymorphic known)
    (hjoins : AreLinked [r.collection] joins) (hfresh : r.collection ∉ joinNames joins)
    (hcondition : ∀ e ∈ e?, IsCondition (joinNames joins ++ [r.collection]) e)
    (outer : Tables E) (v : E.Value) :
    v ∈ ((r.keysWith joins (known.and? e?)).output db outer).map firstValue ↔
      ∃ other ∈ db r.collection, RefersToSome collection other link ∧
        [Cell.row other] ∈
          (selectedRows r.collection joins (e?.map Expr.guarded)).output db [] ∧
        v = other r.field := by
  have hall : IsCondition (joinNames joins ++ [r.collection]) (known.and? e?) := by
    have hknown := hreferring.isCondition.mono (List.subset_append_right (joinNames joins) _)
    cases e? with
    | none => exact hknown
    | some e => exact hknown.guardedBoth (hcondition e rfl)
  have hmeets (t : Tables E) : meets db t (some (known.and? e?)) = true ↔
      RefersToSome collection (rowOf t r.collection) link ∧
        meets db t (e?.map Expr.guarded) = true := by
    rw [meets_eq_true, truthOn_and?, hreferring.truthOn_eq_yes]
  have hkeys : (r.keysWith joins (known.and? e?)).output db outer =
      (r.keysWith joins (known.and? e?)).output db [] :=
    output_of_eq hjoins (fun t t' hagree => by
      rw [Bool.eq_iff_iff, meets_eq_true, meets_eq_true, hall.truthOn_eq hagree]) outer []
  -- both statements join the same rows, each of which stands beside a row of the collection
  have hroot {t : Tables E} (ht : t ∈ (db r.collection).flatMap fun row =>
      joinTables db [(r.collection, row)] joins) : rowOf t r.collection ∈ db r.collection := by
    obtain ⟨row, hrow, hjoined⟩ := List.mem_flatMap.mp ht
    rw [rowOf_of_mem_joinTables hfresh hjoined, rowOf_cons_self]
    exact hrow
  rw [hkeys, Relation.keysWith, selectedRows, output_select db [] rfl, output_select db [] rfl]
  simp only [List.map_map, List.mem_map, List.mem_filter, hmeets]
  constructor
  · rintro ⟨t, ⟨ht, hrefers, hselected⟩, rfl⟩
    refine ⟨rowOf t r.collection, hroot ht, hrefers, ⟨t, ⟨ht, hselected⟩, rfl⟩, ?_⟩
    exact value_of db t r.collection r.field
  · rintro ⟨other, -, hrefers, ⟨t, ⟨ht, hselected⟩, hcell⟩, rfl⟩
    obtain rfl : rowOf t r.collection = other := by
      injection hcell with hcell
      injection hcell
    refine ⟨t, ⟨ht, hrefers, hselected⟩, ?_⟩
    exact value_of db t r.collection r.field

/-- An existential condition compares the key of a row with those of the rows that the filter
selects and that refer to some row, unless an alias hides the collection of these rows. -/
theorem existential_compares {table : String} {link : Link} {quantifier : Quantifier} {f : Filter}
    {e : Expr} {k k' : Nat}
    (h : ((s.context options names).existential collection table link quantifier f
      fun related hops => (s.context options names).condition? hops related [] f).Gives k e k') :
    ∃ r polymorphic known q, IsReferring collection link r polymorphic known ∧
      (∃ c, s.collection? r.collection = some c) ∧
      ((s.context options names).selection r.collection f).Gives k q k' ∧
      ((∀ j, k ≤ j → j < k' → names j ≠ r.collection) →
        ∀ {E : Engine} (db : Database E) (tables : Tables E), ∃ values : List E.Value,
          e.truthOn db tables = (E.isAmong
            (spelledKey polymorphic (rowOf tables table (s.primaryOf collection)))
            values).negatedIf (quantifier = .none) ∧
          ∀ v, v ∈ values ↔ ∃ other ∈ db r.collection, RefersToSome collection other link ∧
            [Cell.row other] ∈ q.output db [] ∧ v = other r.field) := by
  obtain ⟨r, polymorphic, known, scope, several, e?, primary, k₁, hreferring, ⟨info, hinfo⟩, hjoin,
    he, hprimary, rfl⟩ := Context.existential_eq h
  obtain ⟨-, -, -, rfl, -⟩ := primary_context_gives hprimary
  obtain ⟨c, hc, -⟩ := Option.map_eq_some_iff.mp (Except.ok.inj hinfo)
  refine ⟨r, polymorphic, known, _, hreferring, ⟨c, hc⟩, Context.selection_gives rfl hjoin he, ?_⟩
  intro hfresh E db tables
  have hsound := Context.isSound_of_joinFilter (.ofStatement hreferring.isStatement) hjoin
  have hcondition : ∀ e ∈ e?, IsCondition (joinNames scope.query.joins ++ [r.collection]) e := by
    rintro e rfl
    exact Context.isCondition_of_condition? [] f hsound.known he
  -- the joins go by aliases that are issued meanwhile
  have hnames : r.collection ∉ joinNames scope.query.joins := by
    obtain ⟨more, hmore, hissued⟩ := Context.extends_of_joinFilter hjoin
    obtain ⟨numbers, hperm, -, hbounds⟩ := hissued.numbered
    rw [hmore, Relation.keysWith, List.nil_append, hperm.mem_iff]
    intro hmem
    obtain ⟨j, hj, hname⟩ := List.mem_map.mp hmem
    have hlast := Context.grows_condition? _ _ _ _ he
    exact hfresh j (hbounds j hj).1 (Nat.lt_of_lt_of_le (hbounds j hj).2 hlast) hname
  refine ⟨((r.keysWith scope.query.joins (known.and? e?)).output db tables).map firstValue, ?_,
    mem_output_keysWith hreferring hsound.statement.joins hnames hcondition tables⟩
  rw [truthOn_inQuery]
  cases polymorphic <;> simp [spelledKey]

/-! ## Conditions at the root -/

/-- How many of the related rows a condition asks for, and by which filter. -/
def FieldCondition.asked? : FieldCondition → Option (Quantifier × Filter)
  | .compare _ => none
  | .quantified quantifier f => some (quantifier, f)
  | .nested f => some (.some, f)

/-- What a quantifier asks, given whether some row is found. -/
def Quantifier.Asks (found : Prop) : Quantifier → Prop
  | .some => found
  | .none => ¬found

/-- At the root, a link to several rows is asked about by an existential condition. -/
theorem Context.asked_gives {c : Context} {hops : Hops} {key : String}
    {condition : FieldCondition} {quantifier : Quantifier} {f : Filter} {e? : Option Expr}
    {k k' : Nat} (hasked : condition.asked? = some (quantifier, f))
    (hmany : (c.link collection key).isToMany = true)
    (h : (c.fieldCondition? hops collection [] key condition).Gives k e? k') :
    ∃ e, e? = some e ∧ (c.existential collection collection (c.link collection key) quantifier f
      fun related hops => c.condition? hops related [] f).Gives k e k' := by
  have hstart : c.startsExistential collection [] key = true := hmany
  cases condition with
  | compare comparisons => cases hasked
  | quantified asked g | nested g =>
    cases hasked
    rw [fieldCondition?, if_pos hstart, Compile.gives_map] at h
    obtain ⟨e, he, rfl⟩ := h
    exact ⟨e, rfl, he⟩

/-- At the root, whether some, or none, of the rows that refer back to a row is selected is never
unknown, whatever is null in them and whatever their filter joins. -/
theorem truthOn_asked {hops : Hops} {key : String} {condition : FieldCondition}
    {quantifier : Quantifier} {f : Filter} {e? : Option Expr} {k k' : Nat}
    (hasked : condition.asked? = some (quantifier, f))
    (hmany : (link s.relations collection key).isToMany = true)
    (h : ((s.context options names).fieldCondition? hops collection [] key condition).Gives k
      e? k') :
    ∃ e r q, e? = some e ∧ (link s.relations collection key).relation? = some r ∧
      ((s.context options names).selection r.collection f).Gives k q k' ∧
      ((∀ j, k ≤ j → j < k' → names j ≠ r.collection) →
        ∀ {E : Engine} (db : Database E) (row : Row E) (tables : Tables E),
          (row (s.primaryOf collection)).isSome → (∀ v, (E.cast .text v).isSome) →
          rowOf tables collection = row →
          (e.truthOn db tables = .yes ↔ quantifier.Asks (∃ other ∈ db r.collection,
            RefersBack s collection row other (link s.relations collection key) ∧
              [Cell.row other] ∈ q.output db [])) ∧
          (e.truthOn db tables = .no ↔ ¬quantifier.Asks (∃ other ∈ db r.collection,
            RefersBack s collection row other (link s.relations collection key) ∧
              [Cell.row other] ∈ q.output db []))) := by
  obtain ⟨e, rfl, he⟩ := Context.asked_gives (c := s.context options names) hasked hmany h
  obtain ⟨r, polymorphic, known, q, hreferring, -, hq, hcompares⟩ := existential_compares he
  refine ⟨e, r, q, rfl, hreferring.relation?_eq, hq, ?_⟩
  intro hfresh E db row tables hknown hcast hroot
  obtain ⟨values, htruth, hvalues⟩ := hcompares hfresh db tables
  rw [hroot] at htruth
  have hkey : (spelledKey polymorphic (row (s.primaryOf collection))).isSome := by
    obtain ⟨v, hv⟩ := Option.isSome_iff_exists.mp hknown
    rw [hv]
    cases polymorphic with
    | false => rfl
    | true => exact hcast v
  have hyes : E.isAmong (spelledKey polymorphic (row (s.primaryOf collection))) values = .yes ↔
      ∃ other ∈ db r.collection,
        RefersBack s collection row other (link s.relations collection key) ∧
          [Cell.row other] ∈ q.output db [] := by
    rw [Engine.isAmong_eq_yes]
    constructor
    · rintro ⟨v, hv, hsame⟩
      obtain ⟨other, hother, hrefers, hselected, rfl⟩ := (hvalues v).mp hv
      exact ⟨other, hother, (hreferring.refersBack_iff row other).mpr ⟨hrefers, hsame⟩, hselected⟩
    · rintro ⟨other, hother, hback, hselected⟩
      obtain ⟨hrefers, hsame⟩ := (hreferring.refersBack_iff row other).mp hback
      exact ⟨other r.field, (hvalues _).mpr ⟨other, hother, hrefers, hselected, rfl⟩, hsame⟩
  -- all keys are known, so what is not so is known not to be so
  have hno : E.isAmong (spelledKey polymorphic (row (s.primaryOf collection))) values = .no ↔
      E.isAmong (spelledKey polymorphic (row (s.primaryOf collection))) values ≠ .yes := by
    rw [Engine.isAmong_eq_no, ne_eq, Engine.isAmong_eq_yes, not_exists]
    refine forall_congr' fun v => ?_
    rw [not_and]
    refine imp_congr_right fun hv => ?_
    obtain ⟨other, -, hrefers, -, rfl⟩ := (hvalues v).mp hv
    exact (E.same_ne_yes_iff hkey (hreferring.isSome_of_refersToSome hrefers)).symm
  rw [← hyes, htruth]
  generalize E.isAmong (spelledKey polymorphic (row (s.primaryOf collection))) values = t at hno
  cases quantifier with
  | some => exact ⟨Iff.rfl, hno⟩
  | none => cases t <;> simp [Quantifier.Asks, Truth.negatedIf, Truth.not] at hno ⊢

/-! ## Related rows of the blog -/

/-- A comment or an article by Ann. -/
def Filter.byAnn : Filter :=
  .of (.field "author" (.nested
    (.of (.field "name" (.compare [⟨.equal false false, some (.string "Ann")⟩])))))

theorem truthOn_asked_blog :
    ∃ e r q k', ((Schema.blog.context {} Alias.sequential).fieldCondition? {} "articles" []
        "comments" (.quantified .none Filter.byAnn)).Gives 0 (some e) k' ∧
      (link Schema.blog.relations "articles" "comments").relation? = some r ∧
      ((Schema.blog.context {} Alias.sequential).selection r.collection Filter.byAnn).Gives 0 q k' ∧
      ∀ row ∈ Database.blog "articles",
        (e.truthOn Database.blog [("articles", row)] = .yes ↔
          ¬∃ other ∈ Database.blog r.collection,
            RefersBack Schema.blog "articles" row other
                (link Schema.blog.relations "articles" "comments") ∧
              [Cell.row other] ∈ q.output Database.blog []) := by
  obtain ⟨e?, k', h⟩ := Compile.exists_gives (x := (Schema.blog.context {}
    Alias.sequential).fieldCondition? {} "articles" [] "comments"
      (.quantified .none Filter.byAnn)) (k := 0) (by decide +kernel)
  obtain ⟨e, r, q, rfl, hr, hq, htruth⟩ := truthOn_asked rfl (by decide +kernel) h
  have hfresh : ∀ j, 0 ≤ j → j < k' → Alias.sequential j ≠ r.collection := by
    have hcollection : (link Schema.blog.relations "articles" "comments").relation?.map
        Relation.collection = some "comments" := by
      decide +kernel
    rw [hr, Option.map_some, Option.some.injEq] at hcollection
    rw [hcollection]
    exact fun j _ _ => Alias.sequential_ne (by decide) j
  have hknown : ∀ row ∈ Database.blog "articles",
      (row (Schema.blog.primaryOf "articles")).isSome = true := by
    decide +kernel
  refine ⟨e, r, q, k', h, hr, hq, fun row hrow => ?_⟩
  exact (htruth hfresh Database.blog row [("articles", row)] (hknown row hrow) (fun v => rfl)
    (rowOf_cons_self "articles" row [])).1

/-! ## A collection that is hidden -/

/-- Articles and comments, where the collection of the comments is spelled like the first alias. -/
def Schema.hidden : Schema where
  collections := [
    { info := { name := "articles", primary := "id" }
      fields := [⟨"id", .integer, [], none⟩, ⟨"comments", .virtual, ["o2m"], none⟩] },
    { info := { name := "authors", primary := "id" }
      fields := [⟨"id", .integer, [], none⟩, ⟨"name", .string, [], none⟩] },
    { info := { name := "j1", primary := "id" }
      fields := [⟨"id", .integer, [], none⟩, ⟨"article", .integer, [], none⟩,
        ⟨"author", .integer, [], none⟩] }]
  relations := [
    { collection := "j1", field := "article", related := some "articles"
      info := { oneField := some "comments" } },
    { collection := "j1", field := "author", related := some "authors" }]

/-- An article with a comment by Ann. -/
def Database.hidden : Database Engine.literals
  | "articles" => [Database.blog.rowOf [("id", .int 1)]]
  | "authors" => [Database.blog.rowOf [("id", .int 1), ("name", .string "Ann")]]
  | "j1" => [Database.blog.rowOf [("id", .int 1), ("article", .int 1), ("author", .int 1)]]
  | _ => []

/-- The authors are joined under the name of the collection of the comments, which hides it: the
article has a comment by Ann, and the condition that it has one does not hold. -/
theorem truthOn_asked_hidden :
    ∃ row ∈ Database.hidden "articles", ∃ e k',
      ((Schema.hidden.context {} Alias.sequential).fieldCondition? {} "articles" [] "comments"
        (.quantified .some Filter.byAnn)).Gives 0 (some e) k' ∧
      (row "id").isSome = true ∧
      (∃ other ∈ Database.hidden "j1",
        RefersBack Schema.hidden "articles" row other
            (link Schema.hidden.relations "articles" "comments") ∧
          Filter.byAnn.holds Schema.hidden Database.hidden .postgres "j1" other = true) ∧
      e.truthOn Database.hidden [("articles", row)] = .no := by
  let row := Database.blog.rowOf [("id", .int 1)]
  let comment := Database.blog.rowOf [("id", .int 1), ("article", .int 1), ("author", .int 1)]
  have hlink : link Schema.hidden.relations "articles" "comments" = .oneToMany
      { collection := "j1", field := "article", related := some "articles"
        info := { oneField := some "comments" } } := by
    decide +kernel
  obtain ⟨e, k', hgives, hno⟩ := Compile.exists_gives_some (k := 0) (b := Truth.no)
    (x := (Schema.hidden.context {} Alias.sequential).fieldCondition? {} "articles" [] "comments"
      (.quantified .some Filter.byAnn))
    (f := Expr.truthOn Database.hidden [("articles", row)]) (by decide +kernel)
  refine ⟨row, List.mem_singleton_self row, e, k', hgives, rfl, ?_, hno⟩
  refine ⟨comment, List.mem_singleton_self comment, ?_, by decide +kernel⟩
  rw [hlink]
  exact .plain (by decide +kernel)

end JsonSql
