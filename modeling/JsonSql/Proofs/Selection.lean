import JsonSql.Proofs.Aliases
import JsonSql.Proofs.Filtering

set_option autoImplicit false

/-!
# The rows that a filter selects

A request of a plain filter alone, without a limit, compiles to a statement that returns exactly the
rows of the collection that meet the filter, each once and with every column.
-/

namespace JsonSql

open JsonSql.Sql

variable {E : Engine} {s : Schema} {db : Database E} {options : Options} {names : Nat → String}
  {collection : String}

/-! ## Compilation of a filter alone -/

/-- The aliases that the compilation of a request issues. -/
def Compiler.issued (compiler : Compiler) (collection : String) (r : Request) : List String :=
  match compiler.provider.relations with
  | .error _ => []
  | .ok relations =>
    let c : Context := { compiler with relations }
    match (c.apply collection (Compiler.target collection r) r false).run 0 with
    | .error _ => []
    | .ok (_, k) => (List.range k).map compiler.names

theorem Compiler.mem_issued {compiler : Compiler} {r : Request} {relations : List Relation}
    {applied : Applied} {j k : Nat} (hrelations : compiler.provider.relations = .ok relations)
    (happly : (Context.apply { compiler with relations } collection
      (Compiler.target collection r) r false).Gives 0 applied k) (hj : j < k) :
    compiler.names j ∈ compiler.issued collection r := by
  unfold issued
  rw [hrelations]
  dsimp only
  rw [StateT.run, happly]
  exact List.mem_map.mpr ⟨j, List.mem_range.mpr hj, rfl⟩

theorem Compiler.exists_of_mem_issued {compiler : Compiler} {r : Request} {name : String}
    (h : name ∈ compiler.issued collection r) : ∃ j, name = compiler.names j := by
  unfold issued at h
  split at h
  · cases h
  · dsimp only at h
    split at h
    · cases h
    · obtain ⟨j, -, rfl⟩ := List.mem_map.mp h
      exact ⟨j, rfl⟩

/-- The compiler of a schema, with aliases as the options spell them. -/
def Schema.compiler (s : Schema) (options : Options) (letters : Alias.Letters) : Compiler where
  provider := s.provider
  options
  names := Alias.names options.aliasStyle options.aliasLength letters

/-- Without a limit and an offset there is no row window. -/
theorem Options.narrow_window {r : Request} {limit : Option Int} (hr : r.limit = limit)
    (hlimit : options.effectiveLimit limit < 0) (hoffset : r.offset = none) (q : Query) :
    Query.narrow q (options.window r) = q := by
  subst hr
  cases hbound : options.effectiveLimit r.limit with
  | ofNat n =>
    rw [hbound] at hlimit
    exact absurd hlimit (Int.not_lt.mpr (Int.natCast_nonneg n))
  | negSucc n => simp [window, hbound, hoffset, Query.narrow]

/-- Every column of a collection, restricted by a plain filter with one segment in each key, is the
rows that meet the filter, each once. -/
theorem output_of_addFilter {inner several : Bool} {scope : Scope} {f : Filter} {c : Collection}
    {k k' : Nat} (hinjective : Function.Injective names) (hkeys : s.HasKeys db)
    (hc : s.collection? collection = some c) (hsegments : f.IsUnfolded)
    (hplain : f.isPlain s.relations collection true = true) (havoids : s.AvoidsAliases names k')
    (h : ((s.context options names).addFilter inner collection
      { query := Query.selectAllOf { source := some ⟨collection, none⟩ } collection } f
      fun hops => (s.context options names).condition? hops collection [] f).Gives k
        (scope, several) k') :
    scope.query.output db [] = ((db collection).filter
        (f.holds s db options.dialect collection)).map (fun row => [.row row]) ∧
      scope.query.orders = [] ∧ scope.query.window = none := by
  obtain ⟨scope₁, k₁, e?, htracks, he, hquery⟩ :=
    addFilter_tracks hinjective hkeys hc rfl hplain hsegments
      (fun hops => Context.grows_condition? hops collection [] f) havoids h
  have hfinal : scope.query = ⟨[⟨.allColumns (some collection), none⟩], some ⟨collection, none⟩,
      scope₁.query.joins, e?.map Expr.guarded, [], [], none⟩ := by
    rw [hquery]
    cases e? <;> rfl
  obtain ⟨tablesOf, hstands, houtput⟩ := htracks.output
    ⟨.allColumns (some collection), none⟩ rfl (e?.map Expr.guarded) [] none []
  have hmeets (row : Row E) (hmem : row ∈ db collection) :
      meets db (tablesOf row) (e?.map Expr.guarded) =
        f.holds s db options.dialect collection row := by
    have htruth := truthOn_condition? hinjective hkeys [] f (.root hmem (hstands row))
      hplain hsegments havoids he
    rw [Bool.eq_iff_iff, Filter.holds, decide_eq_true_eq]
    rw [show f.truth? s db options.dialect collection true row = _ from htruth.symm]
    cases e? with
    | none => simp [meets]
    | some e =>
      rw [Option.map_some, meets_eq_true, truthOn_guarded]
      rfl
  rw [hfinal]
  refine ⟨?_, rfl, rfl⟩
  rw [houtput, List.filter_congr hmeets]
  refine List.map_congr_left fun row _ => ?_
  rw [Item.cell]
  exact congrArg (fun row => [Cell.row row]) (hstands row).root

/-- A request of a filter alone restricts every column of the collection. -/
theorem apply_filter_gives {f : Filter} {limit : Option Int} {q : Query} {applied : Applied}
    {k k' : Nat} (hlimit : options.effectiveLimit limit < 0)
    (h : ((s.context options names).apply collection q { filter := some f, limit } false).Gives k
      applied k') :
    ∃ c scope several, s.collection? collection = some c ∧
      ((s.context options names).restrict false collection { query := q } f).Gives k
        (scope, several) k' ∧
      applied.query = scope.query := by
  have hwhole : Query.narrow q (options.window { filter := some f, limit }) = q :=
    Options.narrow_window (r := { filter := some f, limit }) rfl hlimit rfl q
  simp only [Context.apply_eq, Compile.gives_bind, Compile.gives_pure] at h
  obtain ⟨info, k₁, hinfo, scope₁, k₂, horder, scope₂, k₃, hsearch, scope₃, k₄, hgroup,
    ⟨scope₄, repeatsRows⟩, k₅, hfilter, scope₅, k₆, haggregate, rfl, rfl⟩ := h
  obtain ⟨hfound, rfl⟩ := Context.collection_gives.mp hinfo
  obtain ⟨c, hc, -⟩ := Option.map_eq_some_iff.mp (Except.ok.inj hfound)
  rw [Context.orderStage, if_neg Bool.false_ne_true, List.foldlM_nil, Compile.gives_pure] at horder
  obtain ⟨rfl, rfl⟩ := horder
  rw [Context.searchStage, Compile.gives_pure] at hsearch
  obtain ⟨rfl, rfl⟩ := hsearch
  rw [List.foldlM_nil, Compile.gives_pure] at hgroup
  obtain ⟨rfl, rfl⟩ := hgroup
  rw [Context.aggregateStage, if_pos List.isEmpty_nil, Compile.gives_pure] at haggregate
  obtain ⟨rfl, rfl⟩ := haggregate
  rw [Context.filterStage, Schema.context_options, hwhole] at hfilter
  exact ⟨c, scope₅, repeatsRows, hc, hfilter, rfl⟩

/-! ## A database to try filters on -/

/-- Primary keys are checked collection by collection. -/
theorem Schema.hasKeys_of_forall {s : Schema} {E : Engine} {db : Database E}
    (h : ∀ c ∈ s.collections, (∀ row ∈ db c.info.name, (row c.info.primary).isSome) ∧
      (db c.info.name).Pairwise fun row other =>
        E.same (row c.info.primary) (other c.info.primary) ≠ .yes) : s.HasKeys db := by
  intro collection c hc
  have hname : c.info.name = collection := by simpa using List.find?_some hc
  subst hname
  exact h c (List.mem_of_find?_eq_some hc)

/-- An engine whose values are literals and which has no functions. -/
def Engine.literals : Engine where
  Datum := Literal
  equals a b := a = b
  less a b :=
    match a, b with
    | .int m, .int n => m < n
    | _, _ => false
  like a b := a = b
  ofBool := .bool
  isTrue v := v = .bool true
  ofCount n := .int n
  literal x := if x = .null then none else some x
  divide _ _ := none
  cast _ v := some v
  raw _ := none
  call _ _ := none
  aggregate _ _ := none
  equals_symm a b := by simp only [eq_comm]
  equals_trans a b c hab hbc := by
    rw [decide_eq_true_eq] at hab hbc ⊢
    exact hab.trans hbc
  isTrue_ofBool b := by simp
  literal_null := rfl

/-- Articles by Ann and by nobody, with comments by Bob and by Ann. -/
def Database.blog : Database Engine.literals
  | "articles" =>
    [rowOf [("id", .int 1), ("author", .int 1)], rowOf [("id", .int 2), ("title", .string "b")]]
  | "authors" =>
    [rowOf [("id", .int 1), ("name", .string "Ann")],
      rowOf [("id", .int 2), ("name", .string "Bob")]]
  | "comments" =>
    [rowOf [("id", .int 1), ("article", .int 1), ("author", .int 2)],
      rowOf [("id", .int 2), ("article", .int 2), ("author", .int 1)],
      rowOf [("id", .int 3), ("author", .int 1)]]
  | _ => []
where
  /-- A row of which these values are known. -/
  rowOf (values : List (String × Literal)) : Row Engine.literals :=
    fun column => (values.lookup column : Option Literal)

/-- Some comment is by Ann, or the author of the article is Bob. -/
def Filter.blog : Filter :=
  ⟨[.any [
    .of (.field "comments" (.quantified .some
      (.of (.field "author.name" (.compare [⟨.equal false false, some (.string "Ann")⟩]))))),
    .of (.field "author.name" (.compare [⟨.equal false false, some (.string "Bob")⟩]))]]⟩

example : (Database.blog "articles").map
    (Filter.blog.unfolded.holds Schema.blog Database.blog .postgres "articles") =
      [false, true] := by
  decide +kernel

/-- Words of the letter `a` name no collection. -/
theorem collection?_names_blog (j : Nat) :
    Schema.blog.collection? ((Schema.blog.compiler {} fun _ => 0).names j) = none := by
  refine List.find?_eq_none.mpr fun c hc hname => ?_
  have hother : ∀ c ∈ Schema.blog.collections, c.info.name.toList.any (· != 'a') = true := by
    decide +kernel
  obtain ⟨letter, hletter, hne⟩ := List.any_eq_true.mp (hother c hc)
  rw [of_decide_eq_true hname] at hletter
  obtain ⟨i, rfl⟩ := Alias.exists_letter_of_mem_random hletter
  exact absurd hne (by decide)

theorem collection?_issued_blog (collection : String) (r : Request) :
    ∀ name ∈ (Schema.blog.compiler {} fun _ => 0).issued collection r,
      Schema.blog.collection? name = none := by
  intro name hname
  obtain ⟨j, rfl⟩ := Compiler.exists_of_mem_issued hname
  exact collection?_names_blog j

theorem exists_compile_filter_blog :
    ∃ q, (Schema.blog.compiler {} fun _ => 0).compile "articles"
      { filter := some Filter.blog, limit := some (-1) } = .ok q :=
  Compiler.exists_compile (by decide +kernel)

/-! ## Selected rows -/

/-- A request is applied to a read of its collection, with aliases that are not spelled like a
collection if no issued one is. -/
theorem apply_of_compile {letters : Alias.Letters} {r : Request} {q : Query}
    (havoids : ∀ name ∈ (s.compiler options letters).issued collection r,
      s.collection? name = none)
    (h : (s.compiler options letters).compile collection r = .ok q) :
    ∃ applied k, ((s.context options (s.compiler options letters).names).apply collection
        (Compiler.target collection r) r false).Gives 0 applied k ∧
      s.AvoidsAliases (s.compiler options letters).names k ∧ q = applied.query := by
  obtain ⟨applied, happlied, rfl⟩ := Compiler.compile_eq_ok h
  obtain ⟨relations, k, hrelations, happly⟩ := Compiler.apply_eq_ok happlied
  obtain rfl : s.relations = relations := Except.ok.inj hrelations
  exact ⟨applied, k, happly, fun j hj => havoids _ (Compiler.mem_issued hrelations happly hj), rfl⟩

/-- The statement of a filter alone is every column of the collection, restricted by the filter. -/
theorem compile_filter_gives {letters : Alias.Letters} {f : Filter} {limit : Option Int}
    {q : Query} (hlimit : options.effectiveLimit limit < 0)
    (havoids : ∀ name ∈ (s.compiler options letters).issued collection { filter := some f, limit },
      s.collection? name = none)
    (h : (s.compiler options letters).compile collection { filter := some f, limit } = .ok q) :
    ∃ c scope several k, s.collection? collection = some c ∧
      s.AvoidsAliases (s.compiler options letters).names k ∧
      ((s.context options (s.compiler options letters).names).restrict false collection
        { query := Query.selectAllOf { source := some ⟨collection, none⟩ } collection } f).Gives 0
          (scope, several) k ∧
      q = scope.query := by
  obtain ⟨applied, k, happly, hfresh, rfl⟩ := apply_of_compile havoids h
  obtain ⟨c, scope, several, hc, hrestrict, hquery⟩ := apply_filter_gives hlimit happly
  exact ⟨c, scope, several, k, hc, hfresh, hrestrict, hquery⟩

/-- The statement of a plain filter returns exactly the rows that meet the filter, each once. -/
theorem output_of_compile_filter {letters : Alias.Letters} {f : Filter} {limit : Option Int}
    {q : Query} (hkeys : s.HasKeys db)
    (hplain : f.unfolded.isPlain s.relations collection true = true)
    (hlimit : options.effectiveLimit limit < 0)
    (havoids : ∀ name ∈ (s.compiler options letters).issued collection { filter := some f, limit },
      s.collection? name = none)
    (h : (s.compiler options letters).compile collection { filter := some f, limit } = .ok q) :
    q.output db [] = ((db collection).filter
        (f.unfolded.holds s db options.dialect collection)).map (fun row => [.row row]) ∧
      q.orders = [] ∧ q.window = none := by
  obtain ⟨c, scope, several, k, hc, hfresh, hrestrict, rfl⟩ :=
    compile_filter_gives hlimit havoids h
  exact output_of_addFilter (Alias.names_injective _ _ _) hkeys hc (isUnfolded_unfolded f) hplain
    hfresh (Context.addFilter_of_restrict hrestrict)

theorem output_of_compile_filter_blog :
    ∃ q, (Schema.blog.compiler {} fun _ => 0).compile "articles"
        { filter := some Filter.blog, limit := some (-1) } = .ok q ∧
      q.output Database.blog [] = ((Database.blog "articles").filter
        (Filter.blog.unfolded.holds Schema.blog Database.blog .postgres "articles")).map
          (fun row => [.row row]) ∧
      q.orders = [] ∧ q.window = none := by
  obtain ⟨q, hq⟩ := exists_compile_filter_blog
  have hkeys : Schema.blog.HasKeys Database.blog :=
    Schema.hasKeys_of_forall (by decide +kernel)
  have hplain : Filter.blog.unfolded.isPlain Schema.blog.relations "articles" true = true := by
    decide +kernel
  have havoids := collection?_issued_blog "articles"
    { filter := some Filter.blog, limit := some (-1) }
  have hlimit : ({} : Options).effectiveLimit (some (-1)) < 0 := by decide
  have houtput := output_of_compile_filter hkeys hplain hlimit havoids hq
  exact ⟨q, hq, houtput⟩

end JsonSql
