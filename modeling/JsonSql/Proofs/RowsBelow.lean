import JsonSql.Proofs.RelatedRows

set_option autoImplicit false

/-!
# Related rows below joins

Below keys that lead to one row after another, a quantified key asks about the rows that refer back
to the row that is reached.  Where no row is reached its key is null, and a null key is in no list
of keys and is out of the empty list only.  So a row that leads to none meets a condition that there
be none exactly when no row that refers to any row is selected, though nothing refers back to it.
-/

namespace JsonSql

open JsonSql.Sql

variable {E : Engine} {s : Schema} {db : Database E} {options : Options} {names : Nat → String}
  {collection : String}

/-! ## Clauses below keys -/

/-- A clause on what keys lead to, one below another. -/
def Clause.under : List String → Clause → Clause
  | [], clause => clause
  | key :: rest, clause => .field key (.nested (.of (Clause.under rest clause)))

theorem Clause.isUnfolded_of_under {keys : List String} {clause : Clause}
    (h : (Clause.under keys clause).IsUnfolded) :
    (∀ key ∈ keys, IsSegment key) ∧ clause.IsUnfolded := by
  induction keys with
  | nil => exact ⟨fun key hkey => (by cases hkey), h⟩
  | cons key rest ih =>
    obtain ⟨hkey, hrest, -⟩ := h
    obtain ⟨hkeys, hclause⟩ := ih hrest
    exact ⟨List.forall_mem_cons.mpr ⟨hkey, hkeys⟩, hclause⟩

namespace Context

variable {c : Context} {hops : Hops}

/-- Keys are joined one below another unless the first one is asked about at the root. -/
def IsJoined (c : Context) (collection : String) (parents keys : List String) : Prop :=
  parents = [] → ∃ key ∈ keys.head?, (c.link collection key).isToMany = false

theorem startsExistential_of_isJoined {parents rest : List String} {key : String}
    (h : c.IsJoined collection parents (key :: rest)) :
    c.startsExistential collection parents key = false := by
  unfold startsExistential
  cases parents with
  | nil =>
    obtain ⟨first, hfirst, hone⟩ := h rfl
    obtain rfl : key = first := Option.some.inj hfirst
    rw [hone, Bool.and_false]
  | cons parent above => rfl

theorem isJoined_concat (parents keys : List String) (key : String) :
    c.IsJoined collection (parents ++ [key]) keys :=
  fun hnone => absurd hnone (by simp)

/-- What is joined is what the last key asks for below the keys before it. -/
theorem clausePaths_under {key : String} {condition : FieldCondition} :
    ∀ {parents keys : List String}, c.IsJoined collection parents (keys ++ [key]) →
      c.clausePaths collection parents (.under keys (.field key condition)) =
        c.conditionPaths collection (parents ++ keys.map Text.trim ++ [Text.trim key])
          condition := by
  intro parents keys
  induction keys generalizing parents with
  | nil =>
    intro h
    rw [Clause.under, clausePaths, startsExistential_of_isJoined h, if_neg Bool.false_ne_true,
      List.map_nil, List.append_nil]
  | cons first rest ih =>
    intro h
    rw [Clause.under, clausePaths, startsExistential_of_isJoined h, if_neg Bool.false_ne_true,
      conditionPaths, Filter.of, filterPaths, clausesPaths, clausesPaths, List.append_nil,
      ih (isJoined_concat parents (rest ++ [key]) _)]
    simp

/-- The condition is that of the last key below the keys before it. -/
theorem clauseCondition?_under {key : String} {condition : FieldCondition} :
    ∀ {parents keys : List String}, c.IsJoined collection parents (keys ++ [key]) →
      c.clauseCondition? hops collection parents (.under keys (.field key condition)) =
        c.fieldCondition? hops collection (parents ++ keys.map Text.trim) key condition := by
  intro parents keys
  induction keys generalizing parents with
  | nil =>
    intro h
    rw [Clause.under, clauseCondition?, List.map_nil, List.append_nil]
  | cons first rest ih =>
    intro h
    rw [Clause.under, clauseCondition?, fieldCondition?, startsExistential_of_isJoined h,
      if_neg Bool.false_ne_true, condition?_of, ih (isJoined_concat parents (rest ++ [key]) _)]
    simp

end Context

/-! ## None of the rows that refer back -/

/-- The rows that count against a row of which there are to be none: those that refer back to it or,
if its key is null, all that refer to some row. -/
def CountsAgainst (s : Schema) (collection : String) (row other : Row E) (link : Link) : Prop :=
  if (row (s.primaryOf collection)).isSome then RefersBack s collection row other link
  else RefersToSome collection other link

theorem IsReferring.countsAgainst_iff {link : Link} {r : Relation} {polymorphic : Bool}
    {known : Expr} (h : IsReferring collection link r polymorphic known)
    (hcast : ∀ v, (E.cast .text v).isSome) (row other : Row E) :
    CountsAgainst s collection row other link ↔ RefersToSome collection other link ∧
      E.same (spelledKey polymorphic (row (s.primaryOf collection))) (other r.field) ≠ .no := by
  unfold CountsAgainst
  cases hkey : row (s.primaryOf collection) with
  | none =>
    have hunknown : spelledKey polymorphic (none : E.Value) = none := by
      cases polymorphic <;> rfl
    simp [hunknown, Engine.same_none]
  | some v =>
    have hknown : (spelledKey polymorphic (some v : E.Value)).isSome := by
      cases polymorphic with
      | false => rfl
      | true => exact hcast v
    rw [Option.isSome_some, if_pos rfl, h.refersBack_iff, hkey]
    refine and_congr_right fun hother => ?_
    have hdecided := E.same_ne_yes_iff hknown (h.isSome_of_refersToSome hother)
    rw [ne_eq, ← hdecided, not_not]

/-- Below keys, that none of the rows that refer back is selected holds exactly if no selected row
counts against the row that the keys lead to. -/
theorem truthOn_none_below {hops : Hops} {parents : List String} {key : String} {f : Filter}
    {e? : Option Expr} {k k' : Nat} (hparents : parents ≠ [])
    (h : ((s.context options names).fieldCondition? hops collection parents key
      (.quantified .none f)).Gives k e? k') :
    ∃ e hop r q, e? = some e ∧ hops.get? parents = some hop ∧
      (link s.relations hop.collection (Text.trim key)).relation? = some r ∧
      (∃ c, s.collection? r.collection = some c) ∧
      ((s.context options names).selection r.collection f).Gives k q k' ∧
      ((∀ j, k ≤ j → j < k' → names j ≠ r.collection) →
        ∀ {E : Engine} (db : Database E) (tables : Tables E), (∀ v, (E.cast .text v).isSome) →
          (e.truthOn db tables = .yes ↔ ¬∃ other ∈ db r.collection,
            CountsAgainst s hop.collection (rowOf tables hop.name) other
                (link s.relations hop.collection (Text.trim key)) ∧
              [Cell.row other] ∈ q.output db [])) := by
  obtain ⟨owner, table, asked, e, rfl, ⟨hmany, hplace⟩, he⟩ := Context.quantified_gives h
  rcases hplace with ⟨hstart, -⟩ | ⟨-, hop, hfound, rfl, rfl, hasked⟩
  · exact absurd (List.isEmpty_iff.mp (Bool.and_eq_true_iff.mp hstart).1) hparents
  have hlink : asked = link s.relations hop.collection (Text.trim key) := hasked
  rw [hlink] at he
  obtain ⟨r, polymorphic, known, q, hreferring, hc, hq, hcompares⟩ := existential_compares he
  refine ⟨e, hop, r, q, rfl, hfound, hreferring.relation?_eq, hc, hq, ?_⟩
  intro hfresh E db tables hcast
  obtain ⟨values, htruth, hvalues⟩ := hcompares hfresh db tables
  have hcounts := hreferring.countsAgainst_iff (s := s) hcast
    (rowOf tables hop.name)
  have hnone : e.truthOn db tables = .yes ↔
      E.isAmong (spelledKey polymorphic (rowOf tables hop.name (s.primaryOf hop.collection)))
        values = .no := by
    rw [htruth]
    cases E.isAmong _ values <;> simp [Truth.negatedIf, Truth.not]
  rw [hnone, Engine.isAmong_eq_no]
  constructor
  · rintro hno ⟨other, hother, hagainst, hselected⟩
    obtain ⟨hrefers, hsame⟩ := (hcounts other).mp hagainst
    have hvalue : other r.field ∈ values :=
      (hvalues (other r.field)).mpr ⟨other, hother, hrefers, hselected, rfl⟩
    exact hsame (hno (other r.field) hvalue)
  · intro hnothing v hv
    obtain ⟨other, hother, hrefers, hselected, rfl⟩ := (hvalues v).mp hv
    by_contra hsame
    exact hnothing ⟨other, hother, (hcounts other).mpr ⟨hrefers, hsame⟩, hselected⟩

/-! ## Requests for rows without related rows -/

/-- A filter that asks for none of the rows that refer back to the row that keys lead to selects a
row exactly if no selected row counts against the one that is reached. -/
theorem mem_output_none_below {letters : Alias.Letters} {f g : Filter} {keys : List String}
    {first key target : String} {limit : Option Int} {q : Query} (hdb : s.HasKeys db)
    (hcast : ∀ v, (E.cast .text v).isSome)
    (hf : f.unfolded = .of (.under (first :: keys) (.field key (.quantified .none g))))
    (hfirst : (link s.relations collection first).isToMany = false)
    (hleads : Leads s db collection ((first :: keys).map Text.trim) target)
    (hlimit : options.effectiveLimit limit < 0)
    (havoids : ∀ name ∈ (s.compiler options letters).issued collection { filter := some f, limit },
      s.collection? name = none)
    (h : (s.compiler options letters).compile collection { filter := some f, limit } = .ok q) :
    ∃ r selected k k', (link s.relations target (Text.trim key)).relation? = some r ∧
      ((s.context options (s.compiler options letters).names).selection r.collection g).Gives k
        selected k' ∧
      ∀ row ∈ db collection, ∀ here,
        walk s db (collection, row) ((first :: keys).map Text.trim) = some (target, here) →
        ([Cell.row row] ∈ q.output db [] ↔ ¬∃ other ∈ db r.collection,
          CountsAgainst s target here other (link s.relations target (Text.trim key)) ∧
            [Cell.row other] ∈ selected.output db []) := by
  obtain ⟨c, scope, several, k', hc, hfresh, hrestrict, rfl⟩ :=
    compile_filter_gives hlimit havoids h
  have hinjective := Alias.names_injective options.aliasStyle options.aliasLength letters
  rw [Context.restrict_eq, hf] at hrestrict
  obtain ⟨scope₁, k₁, e?, hjoin, he, -, hquery⟩ := Context.addFilter_gives hrestrict
  have hjoined : (s.context options (s.compiler options letters).names).IsJoined collection []
      (first :: keys ++ [key]) := fun _ => ⟨first, rfl, hfirst⟩
  have hunfolded := isUnfolded_unfolded f
  rw [hf] at hunfolded
  obtain ⟨hsegments, hkey, -⟩ := Clause.isUnfolded_of_under hunfolded.1
  have hkeys : IsPath ((first :: keys).map Text.trim) := by
    intro segment hsegment
    obtain ⟨written, hwritten, rfl⟩ := List.mem_map.mp hsegment
    exact (hsegments written hwritten).trim
  have hall : Leads s db collection
      ((first :: keys).map Text.trim ++ [Text.trim key]).dropLast target := by
    rw [List.dropLast_concat]
    exact hleads
  have hsame := Context.sameButJoins_of_joinFilter hjoin (Context.sameButJoins_refl _)
  rw [Context.sameButJoins] at hsame
  -- the keys are joined, and one row stands beside each row
  have htracks : scope₁.Tracks s db (s.compiler options letters).names collection k₁ := by
    rw [Context.joinFilter_eq, Filter.of, Context.filterPaths, Context.clausesPaths,
      Context.clausesPaths, List.append_nil, Context.clausePaths_under hjoined,
      Context.conditionPaths, Context.joinPaths_singleton, List.nil_append] at hjoin
    have hlast := Context.grows_condition? _ _ _ _ he
    exact (Scope.tracks_of_joins_eq_nil rfl 0).joinPath hinjective hdb hc
      (hkeys.append hkey.trim) hall (hfresh.mono hlast) hjoin
  rw [Context.condition?_of, Context.clauseCondition?_under hjoined, List.nil_append] at he
  obtain ⟨e, hop, r, selected, rfl, hfound, hr, ⟨related, hrelated⟩, hselected, htruth⟩ :=
    truthOn_none_below (List.cons_ne_nil _ _) he
  have hfinal : scope.query = ⟨[⟨.allColumns (some collection), none⟩], some ⟨collection, none⟩,
      scope₁.query.joins, some e.guarded, [], [], none⟩ := by
    rw [hquery, hsame]
    rfl
  obtain ⟨tablesOf, hstands, houtput⟩ := htracks.output
    ⟨.allColumns (some collection), none⟩ rfl (some e.guarded) [] none []
  have hwalk (row : Row E) : walk s db (collection, row) ((first :: keys).map Text.trim) =
      some (hop.collection, rowOf (tablesOf row) hop.name) :=
    (hstands row).hop _ hop (List.cons_ne_nil _ _) hkeys hfound
  obtain rfl : hop.collection = target := by
    obtain ⟨there, hthere⟩ := hleads (nullRow E)
    rw [hwalk] at hthere
    cases hthere
    rfl
  have hnames : ∀ j, k₁ ≤ j → j < k' → (s.compiler options letters).names j ≠ r.collection :=
    fun j _ hj => (hfresh.ne hj hrelated).symm
  refine ⟨r, selected, k₁, k', hr, hselected, fun row hrow here hhere => ?_⟩
  rw [hwalk] at hhere
  cases hhere
  have hcell (row : Row E) : Item.cell db [] (tablesOf row) ⟨.allColumns (some collection), none⟩ =
      .row row := by
    rw [Item.cell]
    exact congrArg Cell.row (hstands row).root
  have hmeets : meets db (tablesOf row) (some e.guarded) = true ↔
      e.truthOn db (tablesOf row) = .yes := by
    rw [meets_eq_true, truthOn_guarded]
  rw [← htruth hnames db (tablesOf row) hcast, hfinal, houtput, ← hmeets]
  simp only [hcell, List.mem_map, List.mem_filter, List.cons.injEq, Cell.row.injEq, and_true]
  constructor
  · rintro ⟨other, ⟨-, hother⟩, rfl⟩
    exact hother
  · intro hpasses
    exact ⟨row, ⟨hrow, hpasses⟩, rfl⟩

/-- A comment on an article that has none by Ann. -/
def Filter.noneByAnn : Filter :=
  .of (.field "article" (.nested (.of (.field "comments" (.quantified .none .byAnn)))))

theorem mem_output_none_below_blog :
    ∃ q r selected k k', (Schema.blog.compiler {} fun _ => 0).compile "comments"
        { filter := some Filter.noneByAnn, limit := some (-1) } = .ok q ∧
      (link Schema.blog.relations "articles" "comments").relation? = some r ∧
      ((Schema.blog.context {} (Schema.blog.compiler {} fun _ => 0).names).selection r.collection
        Filter.byAnn).Gives k selected k' ∧
      ∀ row ∈ Database.blog "comments", ∀ here,
        walk Schema.blog Database.blog ("comments", row) ["article"] = some ("articles", here) →
        ([Cell.row row] ∈ q.output Database.blog [] ↔ ¬∃ other ∈ Database.blog r.collection,
          CountsAgainst Schema.blog "articles" here other
              (link Schema.blog.relations "articles" "comments") ∧
            [Cell.row other] ∈ selected.output Database.blog []) := by
  obtain ⟨q, hq⟩ : ∃ q, (Schema.blog.compiler {} fun _ => 0).compile "comments"
      { filter := some Filter.noneByAnn, limit := some (-1) } = .ok q :=
    Compiler.exists_compile (by decide +kernel)
  have hf : Filter.noneByAnn.unfolded =
      .of (.under ["article"] (.field "comments" (.quantified .none Filter.byAnn))) := by
    rfl
  have hlink : link Schema.blog.relations "comments" "article" = .manyToOne
      { collection := "comments", field := "article", related := some "articles"
        info := { oneField := some "comments" } } := by
    decide +kernel
  have htrim : ["article"].map Text.trim = ["article"] ∧ Text.trim "comments" = "comments" := by
    decide +kernel
  have hleads : Leads Schema.blog Database.blog "comments" (["article"].map Text.trim)
      "articles" := by
    have hstart : Leads Schema.blog Database.blog "comments" [] "comments" :=
      fun row => ⟨row, rfl⟩
    rw [htrim.1]
    exact hstart.concat hlink rfl
  have havoids := collection?_issued_blog "comments"
    { filter := some Filter.noneByAnn, limit := some (-1) }
  obtain ⟨r, selected, k, k', hr, hselected, hrows⟩ := mem_output_none_below
    (Schema.hasKeys_of_forall (by decide +kernel)) (fun v => rfl) hf (by rw [hlink]; rfl) hleads
    (by decide) havoids hq
  rw [htrim.2] at hr hrows
  rw [htrim.1] at hrows
  exact ⟨q, r, selected, k, k', hq, hr, hselected, hrows⟩

/-- The primary keys of the rows of the blog that a statement returns. -/
def Sql.Query.idsOfBlog (q : Query) : List (Option Literal) :=
  (q.output Database.blog []).map fun
    | [.row row] => row "id"
    | _ => none

/-- A comment on no article is left out because another article has a comment by Ann. -/
theorem not_mem_output_none_below_blog :
    ∃ q, (Schema.blog.compiler {} fun _ => 0).compile "comments"
        { filter := some Filter.noneByAnn, limit := some (-1) } = .ok q ∧
      ∃ row ∈ Database.blog "comments",
        walk Schema.blog Database.blog ("comments", row) ["article"] =
          some ("articles", nullRow Engine.literals) ∧
        (∀ other : Row Engine.literals, ¬RefersBack Schema.blog "articles" (nullRow _) other
          (link Schema.blog.relations "articles" "comments")) ∧
        [Cell.row row] ∉ q.output Database.blog [] := by
  let r : Relation := { collection := "comments", field := "article", related := some "articles"
                        info := { oneField := some "comments" } }
  let comment := Database.blog.rowOf [("id", .int 3), ("author", .int 1)]
  have hforward : link Schema.blog.relations "comments" "article" = .manyToOne r := by
    decide +kernel
  have hbackward : link Schema.blog.relations "articles" "comments" = .oneToMany r := by
    decide +kernel
  obtain ⟨q, hq, hids⟩ : ∃ q, (Schema.blog.compiler {} fun _ => 0).compile "comments"
      { filter := some Filter.noneByAnn, limit := some (-1) } = .ok q ∧
        q.idsOfBlog = [some (.int 1)] :=
    Compiler.exists_compile_with (by decide +kernel)
  refine ⟨q, hq, comment, ?_, ?_, ?_, ?_⟩
  · exact List.mem_cons_of_mem _ (List.mem_cons_of_mem _ (List.mem_singleton_self comment))
  · have hnone : referencedRow Schema.blog Database.blog r "articles" comment = nullRow _ := by
      rw [referencedRow, List.find?_eq_none.mpr (by decide +kernel), Option.getD_none]
    rw [walk, List.foldlM_cons, follow, hforward]
    exact congrArg (fun row => some ("articles", row)) hnone
  · rw [hbackward]
    rintro other ⟨hsame⟩
    rw [show (nullRow Engine.literals) (Schema.blog.primaryOf "articles") = none from rfl,
      Engine.same_none] at hsame
    cases hsame
  · intro hmem
    have hid : (some (.int 3) : Option Literal) ∈ q.idsOfBlog := List.mem_map_of_mem hmem
    rw [hids, List.mem_singleton] at hid
    cases hid

end JsonSql
