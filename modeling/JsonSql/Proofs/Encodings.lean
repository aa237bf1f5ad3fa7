import JsonSql.Proofs.LinkedRows
import JsonSql.Proofs.RelatedRows

set_option autoImplicit false

/-!
# Three ways to ask for related rows

The rows that refer back to a row at the root are asked for by an existential condition, counted by
a subquery and put beside the row by a left join.  All three find the same rows (`RefersBack`),
whatever is null in them, unless an alias of the count or of the join hides the collection at the
root.
-/

namespace JsonSql

open JsonSql.Sql

variable {E : Engine} {s : Schema} {db : Database E} {options : Options} {names : Nat → String}
  {collection : String}

/-! ## The three ways -/

namespace Context

variable {c : Context} {k k' : Nat}

/-- The links back that can be asked about: along a foreign key, or along a polymorphic key with a
discriminator. -/
inductive LinksBack (r : Relation) : Link → Prop
  | plain : LinksBack r (.oneToMany r)
  | polymorphic {column : String} : r.info.discriminator = some column →
      LinksBack r (.oneToAny r)

theorem LinksBack.isToMany {r : Relation} {link : Link} (h : LinksBack r link) :
    link.isToMany = true := by
  cases h <;> rfl

theorem LinksBack.relation?_eq {r : Relation} {link : Link} (h : LinksBack r link) :
    link.relation? = some r := by
  cases h <;> rfl

/-- A filter without clauses leaves a statement alone. -/
theorem addFilter_empty_gives {inner : Bool} {scope : Scope} :
    (c.addFilter inner collection scope ⟨[]⟩ fun hops =>
      c.condition? hops collection [] ⟨[]⟩).Gives k (scope, false) k := by
  simp [addFilter, restricted, joinFilter, joinClauses, condition?, clauseConditions, conjunction?]

theorem relatedKeys_of_linksBack {r : Relation} {link : Link} (h : LinksBack r link) :
    ∃ q polymorphic, (relatedKeys collection link).Gives k (r, q, polymorphic) k := by
  cases h with
  | plain => exact ⟨_, _, Compile.gives_pure.mpr ⟨rfl, rfl⟩⟩
  | polymorphic hcolumn =>
    unfold relatedKeys
    dsimp only
    rw [hcolumn]
    exact ⟨_, _, Compile.gives_pure.mpr ⟨rfl, rfl⟩⟩

/-- Whether there are related rows at all is asked without an alias. -/
theorem asks_gives {hops : Hops} {rel : String} {r : Relation} {info related : CollectionInfo}
    (hlink : LinksBack r (c.link collection rel))
    (hcollection : c.provider.collection collection = .ok (some info))
    (hrelated : c.provider.collection r.collection = .ok (some related))
    (quantifier : Quantifier) :
    ∃ e, (c.fieldCondition? hops collection [] rel (.quantified quantifier ⟨[]⟩)).Gives k
      (some e) k := by
  have hstart : c.startsExistential collection [] rel = true := hlink.isToMany
  obtain ⟨q, polymorphic, hkeys⟩ : ∃ q polymorphic,
      (relatedKeys collection (c.link collection rel)).Gives k (r, q, polymorphic) k :=
    relatedKeys_of_linksBack hlink
  have hasked : ∃ e, (c.existential collection collection (c.link collection rel) quantifier ⟨[]⟩
      fun related hops => c.condition? hops related [] ⟨[]⟩).Gives k e k := by
    simp only [existential, amongKeys, Compile.gives_bind, Compile.gives_pure, collection_gives,
      primary_gives]
    exact ⟨_, (r, q, polymorphic), k, hkeys, related, k, ⟨hrelated, rfl⟩, _, k,
      addFilter_empty_gives, _, k, ⟨info, hcollection, rfl, rfl⟩, rfl, rfl⟩
  obtain ⟨e, he⟩ := hasked
  rw [fieldCondition?, if_pos hstart]
  exact ⟨e, Compile.gives_map.mpr ⟨e, he, rfl⟩⟩

/-- The rows of a link back are counted under the next alias. -/
theorem countRows?_of_linksBack {table : String} {r : Relation} {link : Link}
    {info : CollectionInfo} (hlink : LinksBack r link)
    (hcollection : c.provider.collection collection = .ok (some info)) :
    ∃ e, (c.countRows? collection table link).Gives k (some e) (k + 1) := by
  simp only [countRows?, Compile.gives_bind, primary_gives, freshAlias_gives]
  cases hlink with
  | plain =>
    exact ⟨_, _, k, ⟨info, hcollection, rfl, rfl⟩, _, k + 1, ⟨rfl, rfl⟩,
      Compile.gives_pure.mpr ⟨rfl, rfl⟩⟩
  | polymorphic hcolumn =>
    simp only [hcolumn]
    exact ⟨_, _, k, ⟨info, hcollection, rfl, rfl⟩, _, k + 1, ⟨rfl, rfl⟩,
      Compile.gives_pure.mpr ⟨rfl, rfl⟩⟩

/-- The count of a link back is a column unless the field holds JSON, whose items it counts. -/
theorem column_count_gives {hops : Hops} {rel segment : String} {r : Relation} {f : Field}
    {info : CollectionInfo} (hlink : LinksBack r (c.link collection rel))
    (hcollection : c.provider.collection collection = .ok (some info))
    (hfield : c.provider.field collection rel = .ok (some f)) (htype : f.type ≠ .json)
    (hsegment : splitFunction segment = (some "count", rel)) :
    ∃ column, (c.column hops collection [segment]).Gives k column (k + 1) ∧
      (c.countRows? collection collection (c.link collection rel)).Gives k (some column.expr)
        (k + 1) := by
  obtain ⟨e, he⟩ : ∃ e, (c.countRows? collection collection (c.link collection rel)).Gives k
      (some e) (k + 1) := countRows?_of_linksBack hlink hcollection
  have hfunction : (c.applyFunction (.root collection) "count" (Hops.key [segment]) rel
      f.type).Gives k e (k + 1) := by
    have hname : FieldFunction.ofName? "count" = some .count := rfl
    unfold applyFunction
    simp only [hname, if_neg htype]
    exact Compile.gives_bind.mpr ⟨some e, k + 1, he, Compile.gives_pure.mpr ⟨rfl, rfl⟩⟩
  have hplace : placeOf hops collection [] (Hops.key [segment]) = .ok (.root collection) := rfl
  refine ⟨⟨e, Hops.key [segment], .integer, false, true⟩, ?_, he⟩
  simp only [column, List.getLast?_singleton, List.dropLast_singleton, hplace, hsegment,
    Compile.gives_bind, Compile.gives_lift, field_gives, Compile.gives_pure]
  exact ⟨_, k, ⟨rfl, rfl⟩, f, k, ⟨hfield, rfl⟩, e, k + 1, hfunction, rfl, rfl⟩

end Context

open Context

variable {k : Nat}

theorem Schema.collection_provider {c : Collection} (hc : s.collection? collection = some c) :
    (s.context options names).provider.collection collection = .ok (some c.info) := by
  change Except.ok ((s.collection? collection).map Collection.info) = _
  rw [hc]
  rfl

/-- A link back joins the rows that refer back. -/
theorem Context.LinksBack.refersBack_iff {r : Relation} {link : Link} (h : LinksBack r link)
    {row other : Row E} :
    RefersBack s collection row other link ↔ link.joins s collection row other = .yes := by
  cases h with
  | plain => exact ⟨fun | .plain hsame => hsame, .plain⟩
  | polymorphic hcolumn =>
    rw [Link.joins, Relation.pointsTo, hcolumn, Truth.and_eq_yes, E.same_symm (other r.field)]
    constructor
    · rintro (_ | ⟨hfound, hcollection, hsame⟩)
      obtain rfl := Option.some.inj (hfound.symm.trans hcolumn)
      exact ⟨hcollection, hsame⟩
    · rintro ⟨hcollection, hsame⟩
      exact .polymorphic hcolumn hcollection hsame

/-- A link back is joined under the next alias. -/
theorem join_linksBack_gives {scope : Scope} {path : List String} {rel : String} {r : Relation}
    {link : Link} {c : Collection} (hlink : LinksBack r link)
    (hc : s.collection? collection = some c) :
    ∃ condition, ((s.context options names).joinTarget (.root collection) rel (names k) link).Gives
        (k + 1) (r.collection, condition) (k + 1) ∧
      ((s.context options names).join scope path (.root collection) rel link).Gives k
        ({ query := scope.query.addJoin ⟨r.collection, some (names k)⟩ condition
           hops := scope.hops.insert path ⟨names k, r.collection⟩ },
          ⟨names k, r.collection⟩) (k + 1) := by
  have hprimary : ((s.context options names).primary collection).Gives (k + 1)
      (s.primaryOf collection) (k + 1) := by
    refine primary_gives.mpr ⟨c.info, Schema.collection_provider hc, ?_, rfl⟩
    rw [Schema.primaryOf, hc]
    rfl
  have htarget : ∃ condition, ((s.context options names).joinTarget (.root collection) rel (names k)
      link).Gives (k + 1) (r.collection, condition) (k + 1) := by
    cases hlink with
    | plain =>
      simp only [joinTarget, Compile.gives_bind, Compile.gives_pure]
      exact ⟨_, _, k + 1, hprimary, rfl, rfl⟩
    | polymorphic hcolumn =>
      simp only [joinTarget, Compile.gives_bind, discriminator_gives, Compile.gives_pure]
      exact ⟨_, _, k + 1, ⟨hcolumn, rfl⟩, _, k + 1, hprimary, rfl, rfl⟩
  obtain ⟨condition, hcondition⟩ := htarget
  refine ⟨condition, hcondition, ?_⟩
  simp only [join, Compile.gives_bind, freshAlias_gives, Compile.gives_pure]
  exact ⟨_, _, ⟨rfl, rfl⟩, (r.collection, condition), k + 1, hcondition, rfl, rfl⟩

/-- A filter without clauses selects every row. -/
theorem mem_output_of_selection_empty {q : Query} {k k' : Nat}
    (h : ((s.context options names).selection collection ⟨[]⟩).Gives k q k') (row : Row E) :
    [Cell.row row] ∈ q.output db [] ↔ row ∈ db collection := by
  obtain ⟨added, hadded, rfl⟩ := Compile.gives_map.mp h
  have hsame := hadded.symm.trans
    (addFilter_empty_gives : (Context.addFilter _ true collection _ ⟨[]⟩ _).Gives k _ k)
  injection hsame with hsame
  injection hsame with hsame
  rw [hsame, selectedRows, output_select db [] rfl]
  simp only [joinTables_nil, meets, List.filter_true, List.mem_map, List.mem_flatMap,
    List.mem_singleton]
  constructor
  · rintro ⟨tables, ⟨found, hfound, rfl⟩, hcell⟩
    injection hcell with hcell
    injection hcell with hcell
    rwa [← hcell, qualifiedRow, rowOf_cons_self]
  · intro hrow
    refine ⟨_, ⟨row, hrow, rfl⟩, ?_⟩
    exact congrArg (fun found => [Cell.row found]) (rowOf_cons_self collection row [])

/-- A condition that asks nothing of related rows asks whether a row refers back at all. -/
theorem truthOn_asks {hops : Hops} {rel : String} {r : Relation} {quantifier : Quantifier}
    {e : Expr} {k' : Nat} (hlink : (link s.relations collection rel).relation? = some r)
    (hmany : (link s.relations collection rel).isToMany = true)
    (h : ((s.context options names).fieldCondition? hops collection [] rel
      (.quantified quantifier ⟨[]⟩)).Gives k (some e) k')
    {row : Row E} {tables : Tables E} (hknown : (row (s.primaryOf collection)).isSome)
    (hcast : ∀ v, (E.cast .text v).isSome) (hroot : rowOf tables collection = row) :
    e.truthOn db tables = .yes ↔ quantifier.Asks (∃ other ∈ db r.collection,
      RefersBack s collection row other (link s.relations collection rel)) := by
  obtain ⟨e', r', q, he, hr, hq, htruth⟩ := truthOn_asked rfl hmany h
  obtain rfl := Option.some.inj he
  obtain rfl := Option.some.inj (hlink.symm.trans hr)
  -- the filter joins nothing, so no alias is issued
  have hissued : k' = k := by
    obtain ⟨added, hadded, rfl⟩ := Compile.gives_map.mp hq
    have hsame := hadded.symm.trans
      (addFilter_empty_gives : (Context.addFilter _ true r.collection _ ⟨[]⟩ _).Gives k _ k)
    injection hsame with hsame
    injection hsame
  subst hissued
  rw [(htruth (fun j hj hlt => absurd hlt (Nat.not_lt.mpr hj)) db row tables hknown hcast
    hroot).1]
  simp only [mem_output_of_selection_empty hq]
  have hfound : (∃ other ∈ db r.collection,
      RefersBack s collection row other (link s.relations collection rel) ∧
        other ∈ db r.collection) ↔ ∃ other ∈ db r.collection,
      RefersBack s collection row other (link s.relations collection rel) :=
    ⟨fun ⟨other, hother, hback, _⟩ => ⟨other, hother, hback⟩,
      fun ⟨other, hother, hback⟩ => ⟨other, hother, hback, hother⟩⟩
  rw [hfound]

/-- At the root, the number of related rows is that of the rows that a left join finds, and whether
some, or none, is there is asked accordingly, whatever is null, unless the alias of the count or of
the join is spelled like the collection. -/
theorem encodings_agree {rel segment : String} {r : Relation} {f : Field}
    (hlink : LinksBack r (link s.relations collection rel))
    (hfield : s.field? collection rel = some f) (htype : f.type ≠ .json)
    (hsegment : splitFunction segment = (some "count", rel))
    (hops : Hops) (scope : Scope) (path : List String) (k m n : Nat) :
    ∃ column condition,
      ((s.context options names).column hops collection [segment]).Gives m column (m + 1) ∧
      ((s.context options names).join scope path (.root collection) rel
        (link s.relations collection rel)).Gives n
          ({ query := scope.query.addJoin ⟨r.collection, some (names n)⟩ condition
             hops := scope.hops.insert path ⟨names n, r.collection⟩ },
            ⟨names n, r.collection⟩) (n + 1) ∧
      (∀ quantifier related, s.collection? r.collection = some related →
        ∃ e, ((s.context options names).fieldCondition? hops collection [] rel
          (.quantified quantifier ⟨[]⟩)).Gives k (some e) k) ∧
      (names m ≠ collection → names n ≠ collection →
        ∀ {E : Engine} (db : Database E), s.HasKeys db → (∀ v, (E.cast .text v).isSome) →
        ∀ row ∈ db collection, ∀ tables : Tables E, rowOf tables collection = row →
          let found := Join.found db tables ⟨⟨r.collection, some (names n)⟩, condition⟩
          column.expr.value db [] tables = some (E.ofCount found.length) ∧
          ∀ quantifier e, ((s.context options names).fieldCondition? hops collection [] rel
            (.quantified quantifier ⟨[]⟩)).Gives k (some e) k →
              (e.truthOn db tables = .yes ↔ quantifier.Asks (0 < found.length))) := by
  obtain ⟨c, hc, -⟩ := Option.bind_eq_some_iff.mp hfield
  have hcollection : (s.context options names).provider.collection collection =
    .ok (some c.info) := Schema.collection_provider hc
  have hfound : (s.context options names).provider.field collection rel = .ok (some f) :=
    congrArg Except.ok hfield
  obtain ⟨column, hcolumn, hcount⟩ := column_count_gives hlink hcollection hfound htype hsegment
  obtain ⟨condition, htarget, hjoin⟩ := join_linksBack_gives hlink hc
  refine ⟨column, condition, hcolumn, hjoin, ?_, ?_⟩
  · intro quantifier related hrelated
    exact asks_gives hlink hcollection (Schema.collection_provider hrelated) quantifier
  intro hm hn E db hkeys hcast row hrow tables hroot found
  have hknown : (row (s.primaryOf collection)).isSome := by
    rw [Schema.primaryOf, hc]
    exact (hkeys collection c hc).1 row hrow
  have hfound : found = (link s.relations collection rel).found s db collection row r.collection :=
    (found_joinTarget hn.symm htarget).trans (by rw [← hroot]; rfl)
  refine ⟨?_, ?_⟩
  · obtain ⟨counted, hcounted, hvalue⟩ := value_countRows?_found hm.symm hcount
    obtain rfl := Option.some.inj (hcounted.symm.trans hlink.relation?_eq)
    rw [hvalue, hroot, hfound]
    rfl
  · intro quantifier e he
    rw [truthOn_asks hlink.relation?_eq hlink.isToMany he hknown hcast hroot]
    have hsome : (∃ other ∈ db r.collection,
        RefersBack s collection row other (link s.relations collection rel)) ↔
          0 < found.length := by
      simp only [hfound, List.length_pos_iff_exists_mem, Link.found, List.mem_filter,
        decide_eq_true_eq, hlink.refersBack_iff]
    rw [hsome]

/-- The number of comments of an article, and whether it has some. -/
theorem encodings_agree_blog :
    ∃ column condition e,
      ((Schema.blog.context {} Alias.sequential).column {} "articles" ["count(comments)"]).Gives 0
        column 1 ∧
      ((Schema.blog.context {} Alias.sequential).fieldCondition? {} "articles" [] "comments"
        (.quantified .some ⟨[]⟩)).Gives 0 (some e) 0 ∧
      ∀ row ∈ Database.blog "articles",
        let tables := [("articles", row)]
        let found := Join.found Database.blog tables ⟨⟨"comments", some "j1"⟩, condition⟩
        column.expr.value Database.blog [] tables = some (Engine.literals.ofCount found.length) ∧
        (e.truthOn Database.blog tables = .yes ↔ 0 < found.length) := by
  have hkeys : Schema.blog.HasKeys Database.blog :=
    Schema.hasKeys_of_forall (by decide +kernel)
  let r : Relation := { collection := "comments", field := "article", related := some "articles"
                        info := { oneField := some "comments" } }
  have hlink : link Schema.blog.relations "articles" "comments" = .oneToMany r := by
    decide +kernel
  have hback : LinksBack r (link Schema.blog.relations "articles" "comments") :=
    hlink ▸ .plain
  have hfield : Schema.blog.field? "articles" "comments" =
      some ⟨"comments", .virtual, ["o2m"], none⟩ := rfl
  have hsegment : splitFunction "count(comments)" = (some "count", "comments") := by
    decide +kernel
  obtain ⟨column, condition, hcolumn, -, hasks, hagree⟩ := @encodings_agree Schema.blog {}
    Alias.sequential "articles" _ _ r _ hback hfield (by decide) hsegment {} ⟨{}, {}⟩ [] 0 0 0
  obtain ⟨e, he⟩ := hasks .some _ rfl
  exact ⟨column, condition, e, hcolumn, he, fun row hrow =>
    have hrows := hagree (by decide) (by decide) Database.blog hkeys (fun v => rfl) row hrow
      [("articles", row)] (rowOf_cons_self "articles" row [])
    ⟨hrows.1, hrows.2 .some e he⟩⟩

/-! ## A root that is hidden -/

/-- A collection that is spelled like the first alias, and the comments that refer to it. -/
def Schema.rootHidden : Schema where
  collections := [
    { info := { name := "j1", primary := "id" }
      fields := [⟨"id", .integer, [], none⟩, ⟨"comments", .virtual, ["o2m"], none⟩] },
    { info := { name := "comments", primary := "id" }
      fields := [⟨"id", .integer, [], none⟩, ⟨"article", .integer, [], none⟩] }]
  relations := [
    { collection := "comments", field := "article", related := some "j1"
      info := { oneField := some "comments" } }]

/-- A row with a comment. -/
def Database.rootHidden : Database Engine.literals
  | "j1" => [Database.blog.rowOf [("id", .int 1)]]
  | "comments" => [Database.blog.rowOf [("id", .int 5), ("article", .int 1)]]
  | _ => []

/-- The comments are counted under the name of the collection that they refer to, which hides it:
the row has some comment, and their number is zero. -/
theorem encodings_differ_hidden :
    Schema.rootHidden.validate.isOk = true ∧
      Schema.rootHidden.HasKeys Database.rootHidden ∧
      ∃ row ∈ Database.rootHidden "j1", ∃ e column,
        ((Schema.rootHidden.context {} Alias.sequential).fieldCondition? {} "j1" [] "comments"
          (.quantified .some ⟨[]⟩)).Gives 0 (some e) 0 ∧
        ((Schema.rootHidden.context {} Alias.sequential).column {} "j1"
          ["count(comments)"]).Gives 0 column 1 ∧
        e.truthOn Database.rootHidden [("j1", row)] = .yes ∧
        column.expr.value Database.rootHidden [] [("j1", row)] =
          some (Engine.literals.ofCount 0) := by
  let row := Database.blog.rowOf [("id", .int 1)]
  obtain ⟨⟨e, k⟩, he, hyes⟩ : ∃ a, (Schema.rootHidden.context {} Alias.sequential).fieldCondition?
      {} "j1" [] "comments" (.quantified .some ⟨[]⟩) 0 = .ok a ∧
        (a.1.map (Expr.truthOn Database.rootHidden [("j1", row)]), a.2) = (some .yes, 0) :=
    Except.exists_eq_ok (by decide +kernel)
  obtain ⟨⟨column, k'⟩, hcolumn, hzero⟩ : ∃ a, (Schema.rootHidden.context {}
      Alias.sequential).column {} "j1" ["count(comments)"] 0 = .ok a ∧
        ((a.1.expr.value Database.rootHidden [] [("j1", row)], a.2) : Option Literal × Nat) =
          (some (.int 0), 1) :=
    Except.exists_eq_ok (by decide +kernel)
  obtain ⟨htruth, rfl⟩ := Prod.mk.inj hyes
  obtain ⟨hvalue, rfl⟩ := Prod.mk.inj hzero
  obtain ⟨e, rfl, hsome⟩ := Option.map_eq_some_iff.mp htruth
  exact ⟨by decide +kernel, Schema.hasKeys_of_forall (by decide +kernel), row,
    List.mem_singleton_self row, e, column, he, hcolumn, hsome, hvalue⟩

end JsonSql
