import JsonSql.Proofs.Admission
import JsonSql.Proofs.Dropped

set_option autoImplicit false

/-!
# What answers a filter

The predicates of a compiled condition, from left to right and through the statements of keys that
it asks about, answer what the filter asks, one by one and in its order: a comparison is answered by
one predicate on the column of its path, unless it is left out, and what is asked along a link by
the predicates on keys (`answers_of_compile`).
-/

namespace JsonSql

open JsonSql.Sql

/-! ## Comparisons that are kept -/

/-- Whether a comparison restricts anything: it has the value that its operator takes, the two
bounds of its range, or what may be a geometry. -/
def Comparison.isKept (comparison : Comparison) : Bool :=
  match comparison.operator.arity, comparison.value with
  | .none, _ | .list, some _ => true
  | .single, some value => !value.isNull
  | .pair, some value => value.bounds.length = 2
  | .geometry, some (.string _) | .geometry, some (.array _) | .geometry, some (.object _) => true
  | _, _ => false

/-- Whether a question is answered: all are but comparisons that are left out. -/
def Ask.isKept : Ask → Bool
  | compares _ _ comparison => comparison.isKept
  | _ => true

theorem filterMap_comparison?_filter (asks : List Ask) :
    (asks.filter Ask.isKept).filterMap Ask.comparison? =
      (asks.filterMap Ask.comparison?).filter Comparison.isKept := by
  rw [List.filterMap_filter, List.filter_filterMap]
  refine List.filterMap_congr fun ask _ => ?_
  cases ask with
  | compares owner path comparison =>
    cases hkept : comparison.isKept <;>
      simp [Ask.isKept, Ask.comparison?, Option.filter, hkept]
  | _ => rfl

theorem Link.filter_isKept_asks (owner : String) (quantifier : Quantifier) (link : Link) :
    (link.asks owner quantifier).filter Ask.isKept = link.asks owner quantifier := by
  cases link <;> rfl

theorem Sql.Literal.ofNumber_ne_string (n : Number) (s : String) :
    Literal.ofNumber n ≠ .string s := by
  cases n with
  | int n =>
    unfold Literal.ofNumber
    dsimp only
    split <;> exact nofun
  | float x => exact nofun

namespace Operator

variable {d : Dialect} {column : Expr} {kept negated : Bool} {e? : Option Expr}

/-- A range has two bounds. -/
theorem isSome_of_between {values : List Literal}
    (h : (between negated).predicate? d column values kept = .ok e?) :
    e?.isSome = decide (values.length = 2) := by
  rcases values with _ | ⟨low, _ | ⟨high, _ | ⟨extra, rest⟩⟩⟩ <;>
    · cases h
      simp

/-- A geometry is compared with a geometry only. -/
theorem valueKind_of_intersects {type : FieldType} {boxes : Bool}
    (h : (intersects boxes negated).isAllowedFor type = true) : type.valueKind = .geometry := by
  cases type <;> first | rfl | (cases boxes <;> cases negated <;> cases h)

/-- A text is taken for a geometry, where the dialect knows any. -/
theorem isSome_of_intersects_string {boxes : Bool} {geojson : String}
    (h : (intersects boxes negated).predicate? d column [.string geojson] kept = .ok e?) :
    e?.isSome = true := by
  rw [predicate?] at h
  split at h
  · cases h
    rfl
  · cases h

/-- No number is taken for a geometry. -/
theorem isSome_of_intersects_number {boxes : Bool} {n : Number}
    (h : (intersects boxes negated).predicate? d column [.ofNumber n] kept = .ok e?) :
    e?.isSome = false := by
  dsimp only [predicate?] at h
  split at h
  · next geojson rest htext =>
    exact absurd (List.cons.inj htext).1 (Literal.ofNumber_ne_string n geojson)
  · cases h
    rfl

end Operator

namespace Context

variable {c : Context} {collection : String} {hops : Hops} {k k' : Nat}

/-- A comparison has a predicate if and only if it is kept. -/
theorem isSome_of_compare? {column : Column} {comparison : Comparison} {e? : Option Expr}
    (hkind : column.valueKind = column.type.valueKind)
    (h : c.compare? column comparison = .ok e?) : e?.isSome = comparison.isKept := by
  have hallowed := isAllowedFor_of_compare? h
  obtain ⟨operator, value⟩ := comparison
  rw [compare?, Except.bind_eq_ok_iff] at h
  obtain ⟨-, -, h⟩ := h
  cases value with
  | none =>
    cases operator <;>
      · cases h
        rfl
  | some value =>
    rw [if_neg (fun hmissing => (by cases hmissing.2))] at h
    cases operator with
    | null | empty | oneOf =>
      cases h
      rfl
    | between negated =>
      dsimp only [Operator.arity] at h
      rw [Literal.list_pair] at h
      rw [Operator.isSome_of_between h, List.length_map]
      rfl
    | intersects boxes negated =>
      dsimp only [Operator.arity] at h
      rw [hkind, Operator.valueKind_of_intersects hallowed] at h
      cases value with
      | null | bool =>
        cases h
        rfl
      | number n => exact Operator.isSome_of_intersects_number h
      | string | array | object => exact Operator.isSome_of_intersects_string h
    | _ =>
      cases value <;>
        · cases h
          rfl

/-- The comparisons of a column that are kept have one predicate each, in their order. -/
theorem forall₂_of_compareAll? {column : Column} {comparisons : List Comparison} {e? : Option Expr}
    (hkind : column.valueKind = column.type.valueKind)
    (h : c.compareAll? column comparisons = .ok e?) :
    List.Forall₂ (fun comparison p => c.compare? column comparison = .ok (some p))
      (comparisons.filter Comparison.isKept) (e?.toList.flatMap Expr.predicates) := by
  rw [compareAll?, Except.bind_eq_ok_iff] at h
  obtain ⟨parts, hparts, h⟩ := h
  cases h
  rw [predicates_conjunction?]
  induction comparisons generalizing parts with
  | nil =>
    cases hparts
    exact .nil
  | cons comparison rest ih =>
    simp only [List.mapM_cons, Except.bind_eq_ok_iff] at hparts
    obtain ⟨part, hpart, others, hothers, hresult⟩ := hparts
    cases hresult
    have hkept := isSome_of_compare? hkind hpart
    cases part with
    | none =>
      rw [List.filter_cons_of_neg (by rw [← hkept]; exact Bool.false_ne_true),
        List.reduceOption_cons_of_none]
      exact ih others hothers
    | some e =>
      obtain ⟨values, hpredicate⟩ := compare?_eq_ok_some hpart
      rw [List.filter_cons_of_pos hkept.symm, List.reduceOption_cons_of_some, List.flatMap_cons,
        (isPredicate_of_predicate? hpredicate).predicates]
      exact .cons hpart (ih others hothers)

end Context

/-! ## Answers -/

namespace Sql

mutual
/-- The predicates that a condition combines, from left to right, each that asks about a statement
of keys before those of that statement. -/
def Expr.allPredicates : Expr → List Expr
  | .binary .and left right | .binary .or left right => left.allPredicates ++ right.allPredicates
  | .paren inner => inner.allPredicates
  | .inQuery subject q negated => .inQuery subject q negated :: q.allPredicates
  | e => [e]

/-- The predicates of the condition of a statement. -/
def Query.allPredicates : Query → List Expr
  | ⟨_, _, _, condition, _, _, _⟩ => conditionPredicates condition

/-- The predicates of a condition, if there is one. -/
def conditionPredicates : Option Expr → List Expr
  | none => []
  | some e => e.allPredicates
end

end Sql

/-- The predicates of a condition at any depth are those of the predicates that it combines. -/
theorem Sql.Expr.allPredicates_eq (e : Expr) :
    e.allPredicates = e.predicates.flatMap Expr.allPredicates := by
  induction e using Expr.predicates.induct with
  | case1 left right ihleft ihright | case2 left right ihleft ihright =>
    rw [Expr.allPredicates, Expr.predicates, List.flatMap_append, ihleft, ihright]
  | case3 inner ih => rw [Expr.allPredicates, Expr.predicates, ih]
  | case4 e hand hor hparen =>
    rw [Expr.predicates, List.flatMap_singleton] <;> assumption

/-- A predicate on a column asks about no statement of keys. -/
theorem IsPredicate.allPredicates {column e : Expr} (h : IsPredicate column e) :
    e.allPredicates = [e] := by
  cases h with
  | null negated | oneOf values negated | between low high negated => rfl
  | @compare op value hop | @compareLower op value hop => cases op <;> first | rfl | cases hop
  | @intersects d geojson boxes negated e he =>
    cases negated with
    | true => rfl
    | false => cases d <;> cases boxes <;> cases he <;> rfl

/-- The predicates by which keys of related rows are known are no others at any depth. -/
theorem IsReferring.allPredicates {owner : String} {link : Link} {r : Relation} {polymorphic : Bool}
    {known : Expr} (h : IsReferring owner link r polymorphic known) :
    known.allPredicates = known.predicates := by
  have hnull : IsPredicate (.of r.collection r.field) (.isNull (.of r.collection r.field) true) :=
    .null true
  cases h with
  | plain => rw [hnull.allPredicates, hnull.predicates]
  | @polymorphic r column hdiscriminator =>
    have hequals : IsPredicate (.of r.collection column)
        (.equals (.of r.collection column) (.string owner)) := .compare (.string owner) rfl
    rw [Expr.allPredicates_eq, predicates_both, List.flatMap_append, hnull.predicates,
      hequals.predicates, List.flatMap_singleton, List.flatMap_singleton, hnull.allPredicates,
      hequals.allPredicates]

namespace Context

variable {c : Context} {collection : String} {hops : Hops} {k k' : Nat}

theorem allPredicates_of_compared {column : Column} {comparisons : List Comparison}
    {parts : List Expr}
    (h : List.Forall₂ (fun comparison p => c.compare? column comparison = .ok (some p)) comparisons
      parts) : parts.flatMap Expr.allPredicates = parts := by
  induction h with
  | nil => rfl
  | cons hcompare _ ih =>
    obtain ⟨values, hpredicate⟩ := compare?_eq_ok_some hcompare
    rw [List.flatMap_cons, ih, (isPredicate_of_predicate? hpredicate).allPredicates,
      List.singleton_append]

/-- A predicate that answers a question. -/
inductive IsAnswer (c : Context) : Ask → Expr → Prop
  | compares {owner : String} {path : List String} {comparison : Comparison} {hops : Hops}
      {column : Column} {p : Expr} : c.Resolves owner hops path column.expr →
      c.typeAt? owner path = some column.type → c.compare? column comparison = .ok (some p) →
      IsAnswer c (.compares owner path comparison) p
  | among {owner table : String} {r : Relation} {quantifier : Quantifier} {info : CollectionInfo}
      {polymorphic : Bool} {joins : List Join} {condition : Expr} :
      c.provider.collection owner = .ok (some info) →
      IsAnswer c (.among owner r quantifier) (.inQuery
        (if polymorphic then .cast (.of table info.primary) .text else .of table info.primary)
        (r.keysWith joins condition) (quantifier = .none))
  | refers (r : Relation) : IsAnswer c (.refers r) (.isNull (.of r.collection r.field) true)
  | tagged {owner column : String} {r : Relation} : r.info.discriminator = some column →
      IsAnswer c (.tagged owner r) (.equals (.of r.collection column) (.string owner))

/-- The predicates that answer the leaves of a filter, on joins that are recorded.  The comparisons
of one leaf are answered on one column, which its path resolves to; a filter on related rows is
answered by a key among theirs, on joins of their own. -/
inductive Answers (c : Context) : Hops → String → List Leaf → List Expr → Prop
  | nil (hops : Hops) (collection : String) : Answers c hops collection [] []
  | compared {hops : Hops} {collection : String} {parents : List String} {key : String}
      {comparisons : List Comparison} {leaves : List Leaf} {column : Column}
      {parts predicates : List Expr} :
      c.Resolves collection hops (parents ++ [Text.trim key]) column.expr →
      c.typeAt? collection (parents ++ [Text.trim key]) = some column.type →
      List.Forall₂ (fun comparison p => c.compare? column comparison = .ok (some p))
        (comparisons.filter Comparison.isKept) parts →
      Answers c hops collection leaves predicates →
      Answers c hops collection (.compared parents key comparisons :: leaves) (parts ++ predicates)
  | related {hops : Hops} {collection : String} {parents : List String}
      {key owner table : String} {quantifier : Quantifier} {f : Filter} {leaves : List Leaf}
      {link : Link} {r : Relation} {polymorphic : Bool} {known : Expr} {info : CollectionInfo}
      {scope : Scope} {e? : Option Expr} {predicates : List Expr} :
      c.relatedLink? collection parents key = some (owner, link) →
      c.IsAsked hops collection parents key owner table link →
      IsReferring owner link r polymorphic known →
      c.provider.collection owner = .ok (some info) →
      c.JoinsAlong true r.collection (c.filterPaths r.collection [] f) scope →
      Answers c scope.hops r.collection (c.leaves r.collection [] f)
        (e?.toList.flatMap Expr.predicates) →
      Answers c hops collection leaves predicates →
      Answers c hops collection (.related parents key quantifier f :: leaves)
        (.inQuery
          (if polymorphic then .cast (.of table info.primary) .text else .of table info.primary)
          (r.keysWith scope.query.joins (known.and? e?)) (quantifier = .none) :: predicates)

namespace Answers

/-- Joins that are recorded later do not count. -/
theorem mono {hops' : Hops} {leaves : List Leaf} {predicates : List Expr}
    (hkeeps : Keeps hops hops') (h : c.Answers hops collection leaves predicates) :
    c.Answers hops' collection leaves predicates := by
  induction h with
  | nil hops collection => exact .nil hops' collection
  | compared hresolves htype hparts hrest ih =>
    exact .compared (hresolves.mono hkeeps) htype hparts (ih hkeeps)
  | related hlink hasked hreferring hinfo hjoins hinner hrest ihinner ihrest =>
    exact .related hlink (hasked.mono hkeeps) hreferring hinfo hjoins hinner (ihrest hkeeps)

/-- The conditions of leaves answer them.  The induction is on the size of the filters about related
rows, and within it on the list of leaves. -/
theorem of_leavesGive (size : Nat) :
    ∀ {leaves : List Leaf} {hops : Hops} {collection : String} {predicates : List Expr}
      {k k' : Nat}, (∀ leaf ∈ leaves, leaf.IsUnfolded) →
      (∀ parents key quantifier f, .related parents key quantifier f ∈ leaves → sizeOf f < size) →
      hops.Leads c collection → c.LeavesGive hops collection leaves k predicates k' →
      c.Answers hops collection leaves predicates := by
  induction size using Nat.strongRecOn with
  | ind size ihsize =>
  intro leaves
  induction leaves with
  | nil =>
    intro hops collection predicates k k' _ _ _ h
    obtain ⟨parts, hparts, rfl⟩ := h
    rw [List.mapM_nil, Compile.gives_pure] at hparts
    obtain ⟨rfl, rfl⟩ := hparts
    exact .nil hops collection
  | cons leaf rest ihrest =>
    intro hops collection predicates k k' hunfolded hsize hleads h
    obtain ⟨e?, k₁, others, hleaf, hrest, rfl⟩ := h.cons_gives
    have hothers := ihrest (fun l hl => hunfolded l (List.mem_cons_of_mem _ hl))
      (fun parents key quantifier f hf =>
        hsize parents key quantifier f (List.mem_cons_of_mem _ hf)) hleads hrest
    have hleafUnfolded := hunfolded leaf List.mem_cons_self
    cases leaf with
    | compared parents key comparisons =>
      obtain ⟨column, hcolumn, hall⟩ := compared_gives hleaf
      obtain ⟨htype, -⟩ := typeAt?_of_column hleads hleafUnfolded.1 hcolumn
      exact .compared (resolves_of_column hcolumn).1 htype
        (forall₂_of_compareAll? (valueKind_of_column hcolumn) hall) hothers
    | related parents key quantifier f =>
      obtain ⟨hparents, -, hf⟩ := hleafUnfolded
      obtain ⟨owner, table, link, e, rfl, hasked, he⟩ := quantified_gives hleaf
      obtain ⟨r, polymorphic, known, scope, several, inner?, primary, k₂, hreferring, -, hjoin,
        hinner, hprimary, rfl⟩ := existential_eq he
      obtain ⟨info, hinfo, rfl, -⟩ := primary_gives.mp hprimary
      have hinside := Hops.Leads.joinFilter hf Hops.Leads.empty hjoin
      rw [joinFilter_eq] at hjoin
      have hjoins := joinsAlong_joinPaths (isPath_of_mem_filterPaths isPath_nil hf)
        (joinsAlong_nil rfl) hjoin
      rw [List.nil_append] at hjoins
      -- the filter about related rows is smaller, and so are those in its leaves
      have hanswers := ihsize (sizeOf f) (hsize parents key quantifier f List.mem_cons_self)
        (isUnfolded_of_mem_leaves f isPath_nil hf)
        (fun parents key quantifier g hg => sizeOf_lt_of_mem_leaves f hg) hinside
        (leavesGive_condition? [] f hinner)
      exact .related (hleads.relatedLink? hparents hasked) hasked hreferring hinfo hjoins hanswers
        hothers

/-- One by one and in order, the predicates at any depth answer what the leaves ask. -/
theorem forall₂ {leaves : List Leaf} {predicates : List Expr}
    (h : c.Answers hops collection leaves predicates) :
    List.Forall₂ c.IsAnswer ((leaves.flatMap (c.leafAsks collection)).filter Ask.isKept)
      (predicates.flatMap Expr.allPredicates) := by
  induction h with
  | nil => exact .nil
  | @compared hops collection parents key comparisons leaves column parts predicates hresolves htype
      hparts hrest ih =>
    rw [List.flatMap_cons, List.filter_append, List.flatMap_append, leafAsks]
    refine List.rel_append ?_ ih
    rw [List.filter_map]
    rw [allPredicates_of_compared hparts, List.forall₂_map_left_iff]
    exact hparts.imp fun comparison p hcompare => .compares hresolves htype hcompare
  | @related hops collection parents key owner table quantifier f leaves link r polymorphic known
      info scope e? predicates hlink hasked hreferring hinfo hjoins hinner hrest ihinner ihrest =>
    have hrows := relatedCollection_eq hlink hreferring.relation?_eq
    have hinside : (r.keysWith scope.query.joins (known.and? e?)).allPredicates =
        known.predicates ++ (e?.toList.flatMap Expr.predicates).flatMap Expr.allPredicates := by
      rw [Relation.keysWith, Query.allPredicates, conditionPredicates, Expr.allPredicates_eq,
        predicates_and?, List.flatMap_append, ← Expr.allPredicates_eq, hreferring.allPredicates]
    rw [List.flatMap_cons, List.filter_append, List.flatMap_cons, leafAsks, hrows, asks_eq,
      linkAsks, hlink, List.filter_append, Link.filter_isKept_asks, Expr.allPredicates, hinside]
    refine List.rel_append ?_ ihrest
    rw [← List.cons_append]
    refine List.rel_append ?_ ihinner
    cases hreferring with
    | plain => exact .cons (.among hinfo) (.cons (.refers r) .nil)
    | polymorphic _ hdiscriminator =>
      exact .cons (.among hinfo) (.cons (.refers r) (.cons (.tagged hdiscriminator) .nil))

end Answers

/-! ## Filters on fields of the root -/

theorem not_joinsUpTo_of_length {inner : Bool} {path before : List String} (h : path.length ≤ 1) :
    ¬c.JoinsUpTo inner collection path.dropLast before := by
  have hnil : path.dropLast = [] := by
    rw [← List.length_eq_zero_iff, List.length_dropLast]
    omega
  rintro ⟨hwithin, hsome⟩
  rw [hnil, List.prefix_nil] at hwithin
  rw [hwithin] at hsome
  cases hsome

/-- Paths of one segment join nothing. -/
theorem JoinsAlong.ofShort {inner : Bool} {paths others : List (List String)} {scope : Scope}
    (h : c.JoinsAlong inner collection paths scope) (hsub : others ⊆ paths)
    (hshort : ∀ path ∈ paths, path ∈ others ∨ path.length ≤ 1) :
    c.JoinsAlong inner collection others scope := by
  refine matchesPrefixes_congr h fun before =>
    ⟨fun ⟨path, hpath, hjoins⟩ => ⟨path, hsub hpath, hjoins⟩,
      fun ⟨path, hpath, hjoins⟩ => ?_⟩
  exact ⟨path, (hshort path hpath).resolve_right fun hlength =>
    not_joinsUpTo_of_length hlength hjoins, hjoins⟩

theorem JoinsAlong.joins_eq_nil {inner : Bool} {paths : List (List String)} {scope : Scope}
    (h : c.JoinsAlong inner collection paths scope) (hshort : ∀ path ∈ paths, path.length ≤ 1) :
    scope.query.joins = [] := by
  obtain ⟨walked, hmatches⟩ := h.ofShort (List.nil_subset paths) fun path hpath =>
    .inr (hshort path hpath)
  have hnone : walked = [] := by
    refine List.eq_nil_iff_forall_not_mem.mpr fun entry hentry => ?_
    obtain ⟨path, hpath, -⟩ := (hmatches.complete entry.1).mp (List.mem_map_of_mem hentry)
    cases hpath
  have hjoined := hmatches.joined
  rw [hnone] at hjoined
  exact List.map_eq_nil_iff.mp hjoined

/-- A request whose filter compares fields of the root only. -/
def IsScalar (c : Context) (collection : String) (r : Request) : Prop :=
  ∀ leaf ∈ c.requestLeaves collection r, ∃ key comparisons, leaf = .compared [] key comparisons

theorem IsScalar.length_le {r : Request} (h : c.IsScalar collection r) :
    ∀ path ∈ c.requestPaths collection r, path.length ≤ 1 := by
  intro path hpath
  obtain ⟨f, hf, hpath⟩ := List.mem_flatMap.mp hpath
  rw [filterPaths_eq, List.mem_flatMap] at hpath
  obtain ⟨leaf, hleaf, hpath⟩ := hpath
  obtain ⟨key, comparisons, rfl⟩ := h leaf (List.mem_flatMap.mpr ⟨f, hf, hleaf⟩)
  rw [leafPaths] at hpath
  split at hpath
  · cases hpath
  · rw [List.mem_singleton.mp hpath]
    exact Nat.le_refl 1

/-- Such a filter joins nothing. -/
theorem IsScalar.joinsAlong {r : Request} {inner : Bool} {scope : Scope}
    (h : c.IsScalar collection r)
    (hjoins : c.JoinsAlong inner collection (c.walkedPaths collection r) scope) :
    c.JoinsAlong inner collection (c.walkedPaths collection { r with filter := none }) scope := by
  refine hjoins.ofShort (fun path hpath => ?_) fun path hpath => ?_
  · simp only [walkedPaths, requestPaths, Option.toList_none, List.flatMap_nil, List.append_nil,
      List.mem_append] at hpath ⊢
    exact hpath.imp_left .inl
  · simp only [walkedPaths, List.mem_append] at hpath ⊢
    rcases hpath with (hpath | hpath) | hpath
    · exact .inl (.inl (.inl hpath))
    · exact .inr (h.length_le path hpath)
    · exact .inl (.inr hpath)

/-- Each comparison of a field of the root that is kept is answered by exactly one predicate, and
there are no others. -/
theorem Answers.of_scalar {leaves : List Leaf} {predicates : List Expr}
    (h : c.Answers hops collection leaves predicates)
    (hscalar : ∀ leaf ∈ leaves, ∃ key comparisons, leaf = .compared [] key comparisons) :
    predicates.flatMap Expr.allPredicates = predicates ∧
      predicates.length =
        ((leaves.flatMap Leaf.comparisons).filter Comparison.isKept).length := by
  induction h with
  | nil => exact ⟨rfl, rfl⟩
  | compared hresolves htype hparts hrest ih =>
    obtain ⟨hall, hlength⟩ := ih fun leaf hleaf => hscalar leaf (List.mem_cons_of_mem _ hleaf)
    refine ⟨?_, ?_⟩
    · rw [List.flatMap_append, allPredicates_of_compared hparts, hall]
    · rw [List.flatMap_cons, Leaf.comparisons, List.filter_append, List.length_append,
        List.length_append, hlength, hparts.length_eq]
  | related =>
    obtain ⟨key, comparisons, hleaf⟩ := hscalar _ List.mem_cons_self
    cases hleaf

end Context

/-! ## Statements -/

/-- The condition of a statement answers the filter of a request: after the predicates of its search
stand those of the leaves of the filter, on the joins of the statement. -/
structure Context.AnswersRequest (c : Context) (collection : String) (r : Request) (q : Query)
    (searched filtered : List Expr) (hops : Hops) : Prop where
  joins : c.JoinsAlong false collection (c.walkedPaths collection r) { query := q, hops }
  predicates : q.condition.toList.flatMap Expr.predicates = searched ++ filtered
  leaves : c.Answers hops collection (c.requestLeaves collection r) filtered

theorem Context.comparisons_of_requestLeaves {c : Context} {collection : String} (r : Request) :
    (c.requestLeaves collection r).flatMap Leaf.comparisons = r.comparisons := by
  rw [requestLeaves, Request.comparisons, List.flatMap_assoc]
  refine List.flatMap_congr fun f _ => ?_
  rw [comparisons_of_leaves, Filter.comparisons_unfolded]

theorem Context.asks_of_requestLeaves {c : Context} {collection : String} (r : Request) :
    (c.requestLeaves collection r).flatMap (c.leafAsks collection) =
      c.requestAsks collection r := by
  rw [requestLeaves, requestAsks, List.flatMap_assoc]
  exact List.flatMap_congr fun f _ => (asks_eq f.unfolded).symm

/-- The predicates of a search ask about no statement of keys. -/
theorem Schema.allPredicates_searched (s : Schema) (collection : String) (r : Request) :
    (s.searched collection r).flatMap Expr.allPredicates = s.searched collection r := by
  have hall : ∀ p ∈ s.searched collection r, p.allPredicates = [p] := by
    intro p hp
    rcases Schema.mem_searched hp with rfl | ⟨f, -, -, hpredicate⟩
    · rfl
    · exact hpredicate.allPredicates
  rw [List.flatMap_congr hall, List.flatMap_singleton']

theorem Sql.Query.allPredicates_eq (q : Query) :
    q.allPredicates =
      (q.condition.toList.flatMap Expr.predicates).flatMap Expr.allPredicates := by
  obtain ⟨items, source, joins, condition, groups, orders, window⟩ := q
  rw [Query.allPredicates]
  cases condition with
  | none => rfl
  | some e =>
    rw [conditionPredicates, e.allPredicates_eq, Option.toList_some, List.flatMap_singleton]

/-- The predicates of a compiled statement, at any depth and from left to right, are those of the
search and those that answer what the filter asks, one by one and in order.  The comparisons among
its questions are those that the filter keeps.  If the filter compares fields of the root only, the
joins are those of the rest of the request, and each comparison that is kept has one predicate. -/
theorem answers_of_compile {s : Schema} {options : Options} {letters : Alias.Letters}
    {collection : String} {r : Request} {q : Query}
    (h : (s.compiler options letters).compile collection r = .ok q) :
    ∃ hops filtered,
      (s.context options (s.compiler options letters).names).AnswersRequest collection r q
        (s.searched collection r) filtered hops ∧
      q.allPredicates = s.searched collection r ++ filtered.flatMap Expr.allPredicates ∧
      List.Forall₂ (s.context options (s.compiler options letters).names).IsAnswer
        (((s.context options (s.compiler options letters).names).requestAsks collection r).filter
          Ask.isKept) (filtered.flatMap Expr.allPredicates) ∧
      (((s.context options (s.compiler options letters).names).requestAsks collection r).filter
          Ask.isKept).filterMap Ask.comparison? = r.comparisons.filter Comparison.isKept ∧
      ((s.context options (s.compiler options letters).names).IsScalar collection r →
        filtered.flatMap Expr.allPredicates = filtered ∧
        filtered.length = (r.comparisons.filter Comparison.isKept).length ∧
        (s.context options (s.compiler options letters).names).JoinsAlong false collection
          ((s.context options (s.compiler options letters).names).walkedPaths collection
            { r with filter := none }) { query := q, hops } ∧
        ((∀ path ∈ (s.context options (s.compiler options letters).names).walkedPaths collection
          { r with filter := none }, path.length ≤ 1) → q.joins = [])) := by
  obtain ⟨applied, happlied, rfl⟩ := Compiler.compile_eq_ok h
  obtain ⟨relations, k, hrelations, happly⟩ := Compiler.apply_eq_ok happlied
  obtain rfl : s.relations = relations := Except.ok.inj hrelations
  obtain ⟨scope, filtered, hquery, hjoins, hpredicates, hnone, hasked⟩ :=
    joined_of_apply (Compiler.target_condition collection r) happly
  have hjoins := hjoins (Compiler.target_joins collection r)
  obtain ⟨query, hops⟩ := scope
  obtain rfl : applied.query = query := hquery
  have hleaves : (s.context options (s.compiler options letters).names).Answers hops collection
      ((s.context options (s.compiler options letters).names).requestLeaves collection r)
      filtered := by
    unfold Context.requestLeaves
    cases hf : r.filter with
    | none =>
      rw [hnone hf]
      exact .nil hops collection
    | some f =>
      obtain ⟨before, e?, k₁, k₂, hled, hkeeps, he, rfl⟩ := hasked f hf
      rw [Option.toList_some, List.flatMap_singleton]
      exact (Context.Answers.of_leavesGive (sizeOf f.unfolded)
        (Context.isUnfolded_of_mem_leaves f.unfolded isPath_nil (isUnfolded_unfolded f))
        (fun parents key quantifier g hg => Context.sizeOf_lt_of_mem_leaves f.unfolded hg)
        hled.leads (Context.leavesGive_condition? [] f.unfolded he)).mono hkeeps
  refine ⟨hops, filtered, ⟨hjoins, hpredicates, hleaves⟩, ?_, ?_, ?_, fun hscalar => ?_⟩
  · rw [Query.allPredicates_eq, hpredicates, List.flatMap_append, s.allPredicates_searched]
  · rw [← Context.asks_of_requestLeaves]
    exact hleaves.forall₂
  · rw [filterMap_comparison?_filter, Context.comparisons_of_requestAsks]
  · obtain ⟨hall, hlength⟩ := hleaves.of_scalar hscalar
    rw [Context.comparisons_of_requestLeaves] at hlength
    have hrest := hscalar.joinsAlong hjoins
    exact ⟨hall, hlength, hrest, hrest.joins_eq_nil⟩

/-- Articles of a title, above a key and below nothing. -/
def Request.titled : Request where
  filter := some ⟨[.field "title" (.compare [⟨.equal false false, some (.string "tea")⟩]),
    .field "id" (.compare [⟨.greater, some (.number (.int 1))⟩, ⟨.less, none⟩])]⟩

theorem answers_of_compile_blog :
    (∃ q hops filtered, (Schema.blog.compiler {} fun _ => 0).compile "articles" .blog = .ok q ∧
      (Schema.blog.context {} (Schema.blog.compiler {} fun _ => 0).names).AnswersRequest "articles"
        .blog q [] filtered hops ∧
      List.Forall₂ (Schema.blog.context {} (Schema.blog.compiler {} fun _ => 0).names).IsAnswer
        (((Schema.blog.context {} (Schema.blog.compiler {} fun _ => 0).names).requestAsks
          "articles" .blog).filter Ask.isKept) (filtered.flatMap Expr.allPredicates) ∧
      (filtered.flatMap Expr.allPredicates).length = 5) ∧
    ∃ q hops filtered, (Schema.blog.compiler {} fun _ => 0).compile "articles" .titled = .ok q ∧
      (Schema.blog.context {} (Schema.blog.compiler {} fun _ => 0).names).AnswersRequest "articles"
        .titled q [] filtered hops ∧
      filtered.length = 2 ∧ q.joins = [] := by
  refine ⟨?_, ?_⟩
  · obtain ⟨q, hq, hcount⟩ : ∃ q, (Schema.blog.compiler {} fun _ => 0).compile "articles" .blog =
        .ok q ∧ q.allPredicates.length = 5 := Compiler.exists_compile_with (by decide +kernel)
    obtain ⟨hops, filtered, hanswers, hall, hasks, -, -⟩ := answers_of_compile hq
    refine ⟨q, hops, filtered, hq, hanswers, hasks, ?_⟩
    rw [← hcount, hall]
    rfl
  · obtain ⟨q, hq⟩ : ∃ q, (Schema.blog.compiler {} fun _ => 0).compile "articles" .titled = .ok q :=
      Compiler.exists_compile (by decide +kernel)
    obtain ⟨hops, filtered, hanswers, -, -, -, hscalar⟩ := answers_of_compile hq
    have hroot : (Schema.blog.context {} (Schema.blog.compiler {} fun _ => 0).names).IsScalar
        "articles" .titled := by
      intro leaf hleaf
      have hleaves :
          (Schema.blog.context {} (Schema.blog.compiler {} fun _ => 0).names).requestLeaves
            "articles" .titled = [.compared [] "title" _, .compared [] "id" _] := rfl
      rw [hleaves] at hleaf
      rcases List.mem_cons.mp hleaf with rfl | hleaf
      · exact ⟨_, _, rfl⟩
      · exact ⟨_, _, List.mem_singleton.mp hleaf⟩
    obtain ⟨-, hlength, -, hjoins⟩ := hscalar hroot
    refine ⟨q, hops, filtered, hq, hanswers, hlength, hjoins fun path hpath => ?_⟩
    cases hpath

end JsonSql
