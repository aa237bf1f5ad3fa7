import JsonSql.Proofs.Discriminators

set_option autoImplicit false

/-!
# Admitted operators

Every comparison of a filter is checked against the type that the links tell of its path, at any
depth and whether or not it is left out afterwards: a filter that compiles compares with admitted
operators only, and the refusal of an operator is always that of some comparison
(`admitted_of_compile`).
-/

namespace JsonSql

open JsonSql.Sql

/-- The refusal of an operator at a path of a type. -/
def QueryError.isRefusal (path : String) (type : FieldType) (operator : Operator) :
    QueryError → Bool
  | .operatorNotAllowed p t op => p = path ∧ t = type ∧ op = operator
  | _ => false

theorem QueryError.isRefusal_eq_false {path : String} {type : FieldType} {operator : Operator}
    (e : QueryError) (hoperator : e.isOfOperator = false) :
    e.isRefusal path type operator = false := by
  cases e <;> first | rfl | cases hoperator

theorem QueryError.isRefusal_self (path : String) (type : FieldType) (operator : Operator) :
    (QueryError.operatorNotAllowed path type operator).isRefusal path type operator = true := by
  simp [isRefusal]

namespace Context

variable {c : Context} {collection : String} {hops : Hops} {k k' : Nat}

/-! ## Operators of filters that compile -/

theorem isAllowedFor_of_checkOperator {column : Column} {operator : Operator}
    (h : checkOperator column operator = .ok ()) : operator.isAllowedFor column.type = true := by
  unfold checkOperator at h
  split at h
  · cases h
  · split at h
    · assumption
    · cases h

/-- A comparison that compiles is admitted by its column, also if it is left out. -/
theorem isAllowedFor_of_compare? {column : Column} {comparison : Comparison} {e? : Option Expr}
    (h : c.compare? column comparison = .ok e?) :
    comparison.operator.isAllowedFor column.type = true := by
  simp only [compare?, Except.bind_eq_ok_iff] at h
  obtain ⟨⟨⟩, hcheck, -⟩ := h
  exact isAllowedFor_of_checkOperator hcheck

/-- The operator of a comparison is admitted by the type of what its path resolves to. -/
def Admits (c : Context) (owner : String) (path : List String) (comparison : Comparison) : Prop :=
  ∃ type, c.typeAt? owner path = some type ∧ comparison.operator.isAllowedFor type = true

/-- Every comparison of a filter that compiles is admitted.  The induction is on the size of the
filter. -/
theorem admits_of_condition? (f : Filter) :
    ∀ {collection : String} {hops : Hops} {e? : Option Expr} {k k' : Nat}, f.IsUnfolded →
      hops.Led c collection k → (c.condition? hops collection [] f).Gives k e? k' →
      ∀ owner path comparison, .compares owner path comparison ∈ c.asks collection f →
        c.Admits owner path comparison := by
  induction hsize : sizeOf f using Nat.strongRecOn generalizing f with
  | ind size ih =>
  intro collection hops e? k k' hf hled he owner path comparison hmem
  rw [asks_eq, List.mem_flatMap] at hmem
  obtain ⟨leaf, hleaf, hmem⟩ := hmem
  have hunfolded := isUnfolded_of_mem_leaves f isPath_nil hf leaf hleaf
  obtain ⟨part?, k₁, k₂, hle, hpart⟩ := (leavesGive_condition? [] f he).of_leaf hleaf
  cases leaf with
  | compared parents key comparisons =>
    obtain ⟨found, hfound, hask⟩ := List.mem_map.mp hmem
    cases hask
    obtain ⟨column, hcolumn, hall⟩ := compared_gives hpart
    obtain ⟨htype, -⟩ := typeAt?_of_column hled.leads hunfolded.1 hcolumn
    rw [compareAll?, Except.bind_eq_ok_iff] at hall
    obtain ⟨parts, hparts, -⟩ := hall
    obtain ⟨part, hcompare⟩ := Except.exists_of_mapM_eq_ok hparts comparison hfound
    exact ⟨column.type, htype, isAllowedFor_of_compare? hcompare⟩
  | related parents key quantifier g =>
    obtain ⟨there, table, link, r, polymorphic, known, scope, several, inner?, primary, k₃, hlink,
      -, hreferring, -, hjoin, hinner, -, -⟩ := related_gives hunfolded.1 (hled.mono hle) hpart
    have hrows := relatedCollection_eq hlink hreferring.relation?_eq
    rw [leafAsks, List.mem_append] at hmem
    rcases hmem with hmem | hmem
    · have hnone := comparison?_of_mem_linkAsks hmem
      cases hnone
    · rw [hrows] at hmem
      exact ih (sizeOf g) (hsize ▸ sizeOf_lt_of_mem_leaves f hleaf) g rfl hunfolded.2.2
        (Hops.Led.joinFilter hunfolded.2.2 (.empty k₁) hjoin) hinner owner path comparison hmem

/-! ## Refused operators -/

section Refusal

variable {shown : String} {type : FieldType} {operator : Operator}

/-- Links do not refuse operators. -/
theorem isShielded_isRefusal :
    c.IsShielded (QueryError.isRefusal shown type operator) (fun _ => True) (fun _ => True) := by
  refine isShielded (fun e _ => QueryError.isRefusal_eq_false e) fun _ _ r _ collection field => ?_
  unfold discriminator
  split
  · exact .pure _
  · exact .throw rfl

/-- A comparison is refused for the type of its column only. -/
theorem avoids_compare?_of_isAllowedFor {column : Column} {comparison : Comparison}
    (h : column.path = shown → column.type = type → comparison.operator = operator →
      operator.isAllowedFor type = true) :
    AvoidsResult (QueryError.isRefusal shown type operator) (c.compare? column comparison) := by
  refine avoids_compare? (fun _ _ => rfl) ?_
  unfold checkOperator
  split
  · exact .error rfl
  · split
    · exact .ok ()
    · next hrefused =>
      refine .error ?_
      rw [QueryError.isRefusal, decide_eq_false_iff_not]
      rintro ⟨hshown, htype, hsame⟩
      rw [htype, hsame] at hrefused
      exact hrefused (h hshown htype hsame)

/-- A request asks a comparison with an operator that the type of its path does not admit. -/
def AsksRefused (c : Context) (collection : String) (r : Request) (shown : String)
    (type : FieldType) (operator : Operator) : Prop :=
  ∃ owner path comparison, .compares owner path comparison ∈ c.requestAsks collection r ∧
    Hops.key path = shown ∧ c.typeAt? owner path = some type ∧
    comparison.operator = operator ∧ operator.isAllowedFor type = false

/-- A request that asks no such comparison is not refused for it. -/
theorem avoids_apply {q : Query} {r : Request}
    (hnamed : ∀ info, c.provider.collection collection = .ok (some info) →
      info.name = collection)
    (h : ¬c.AsksRefused collection r shown type operator) :
    (c.apply collection q r false).Avoids (QueryError.isRefusal shown type operator) := by
  refine isShielded_isRefusal.apply (fun _ _ => trivial) (fun f hf => ?_) trivial hnamed
  intro owner path comparison hmem column htype hpath
  refine avoids_compare?_of_isAllowedFor fun hshown hsame hoperator => ?_
  by_contra hrefused
  rw [hpath] at hshown
  rw [hsame] at htype
  have hasked : .compares owner path comparison ∈ c.requestAsks collection r :=
    List.mem_flatMap.mpr ⟨f, Option.mem_toList.mpr hf, hmem⟩
  exact h ⟨owner, path, comparison, hasked, hshown, htype, hoperator,
    Bool.eq_false_iff.mpr hrefused⟩

end Refusal

end Context

/-! ## Compilation -/

/-- The comparisons of the filter of a request are those that it asks, each at a path from a
collection.  If the request compiles, the type of each path admits the operator; and if it is
refused for an operator, it asks a comparison with that operator at a path of that type, which does
not admit it. -/
theorem admitted_of_compile (s : Schema) (options : Options) (letters : Alias.Letters)
    (collection : String) (r : Request) :
    ((s.context options (s.compiler options letters).names).requestAsks collection r).filterMap
        Ask.comparison? = r.comparisons ∧
    (∀ q, (s.compiler options letters).compile collection r = .ok q →
      ∀ owner path comparison,
        .compares owner path comparison ∈
          (s.context options (s.compiler options letters).names).requestAsks collection r →
        (s.context options (s.compiler options letters).names).Admits owner path comparison) ∧
    (∀ shown type operator, (s.compiler options letters).compile collection r =
        .error (.operatorNotAllowed shown type operator) →
      (s.context options (s.compiler options letters).names).AsksRefused collection r shown type
        operator) := by
  refine ⟨Context.comparisons_of_requestAsks r, fun q hq owner path comparison hmem => ?_,
    fun shown type operator hrefused => ?_⟩
  · obtain ⟨f, hf, hmem⟩ := List.mem_flatMap.mp hmem
    obtain ⟨applied, happlied, rfl⟩ := Compiler.compile_eq_ok hq
    obtain ⟨relations, k, hrelations, happly⟩ := Compiler.apply_eq_ok happlied
    obtain rfl : s.relations = relations := Except.ok.inj hrelations
    obtain ⟨filtered, -, hfiltered⟩ :=
      condition_of_apply (Compiler.target_condition collection r) happly
    obtain ⟨hops, e?, k₁, k₂, hled, he, -⟩ := hfiltered f (Option.mem_toList.mp hf)
    exact Context.admits_of_condition? f.unfolded (isUnfolded_unfolded f) hled he owner path
      comparison hmem
  · by_contra hnone
    have havoids := avoids_compile_of_apply
      (Context.avoids_apply (fun info hinfo => s.name_of_collection hinfo) hnone)
    have hself := havoids _ hrefused
    rw [QueryError.isRefusal_self] at hself
    cases hself

/-- Articles with a comment whose body is more than a text. -/
def Request.bodyAbove : Request where
  filter := some (.of (.field "comments" (.nested
    (.of (.field "body" (.compare [⟨.greater, some (.string "tea")⟩]))))))

theorem admitted_of_compile_blog :
    (∃ q, (Schema.blog.compiler {} fun _ => 0).compile "articles" .blog = .ok q ∧
      (∃ owner path comparison, .compares owner path comparison ∈
        (Schema.blog.context {} (Schema.blog.compiler {} fun _ => 0).names).requestAsks "articles"
          .blog ∧ comparison.operator = .greater) ∧
      ∀ owner path comparison, .compares owner path comparison ∈
        (Schema.blog.context {} (Schema.blog.compiler {} fun _ => 0).names).requestAsks "articles"
          .blog →
        (Schema.blog.context {} (Schema.blog.compiler {} fun _ => 0).names).Admits owner path
          comparison) ∧
    (Schema.blog.compiler {} fun _ => 0).compile "articles" .bodyAbove =
        .error (.operatorNotAllowed "body" .text .greater) ∧
      (Schema.blog.context {} (Schema.blog.compiler {} fun _ => 0).names).AsksRefused "articles"
        .bodyAbove "body" .text .greater := by
  obtain ⟨q, hq⟩ : ∃ q, (Schema.blog.compiler {} fun _ => 0).compile "articles" .blog = .ok q :=
    Compiler.exists_compile (by decide +kernel)
  have hrefused : (Schema.blog.compiler {} fun _ => 0).compile "articles" .bodyAbove =
      .error (.operatorNotAllowed "body" .text .greater) :=
    eq_error_of_failure? (by decide +kernel)
  obtain ⟨hcomparisons, hadmits, -⟩ :=
    admitted_of_compile Schema.blog {} (fun _ => 0) "articles" .blog
  refine ⟨⟨q, hq, ?_, hadmits q hq⟩, hrefused, ?_⟩
  · have hmem : (⟨.greater, some (.number (.int 1))⟩ : Comparison) ∈ Request.blog.comparisons :=
      .tail _ (.tail _ (.head _))
    rw [← hcomparisons, List.mem_filterMap] at hmem
    obtain ⟨ask, hask, hfound⟩ := hmem
    cases ask with
    | compares owner path comparison =>
      cases hfound
      exact ⟨owner, path, _, hask, rfl⟩
    | _ => cases hfound
  · exact (admitted_of_compile Schema.blog {} (fun _ => 0) "articles" .bodyAbove).2.2 _ _ _
      hrefused

end JsonSql
