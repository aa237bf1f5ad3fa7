import JsonSql.Proofs.Compiled
import JsonSql.Proofs.Parallel

set_option autoImplicit false

/-!
# Two compilations of one request: filters, parts and statements

The conditions of a filter are built in lockstep leaf by leaf, existential conditions from the
joins of their own statements.  With the orderings, groups and aggregations this gives the
comparison of whole compilations (`matches_compile`).
-/

namespace JsonSql

open JsonSql.Sql
open Compile (InStep inStep_pure inStep_throw inStep_lift inStep_refl inStep_map_self
  inStep_foldlM inStep_mapM)

variable {exact : Prop} {labels : String → String} {s : Schema} {options options' : Options}
  {names names' : Nat → String} {collection : String} {inner : Bool}

namespace Context

/-! ## Leaves -/

/-- Two dialects say alike what a leaf of a filter asks, and at any depth what a filter on related
rows asks. -/
def AsksAlike (c : Context) (s : Schema) (d d' : Dialect) (collection : String) : Leaf → Prop
  | .compared parents key comparisons => ∀ owner, c.destination? collection parents = some owner →
    s.ComparesAlike d d' owner (Text.trim key) comparisons
  | .related parents key _ f => ∀ owner link r,
    c.relatedLink? collection parents key = some (owner, link) → link.relation? = some r →
    ∀ there field comparisons, c.Compares r.collection f there field comparisons →
      s.ComparesAlike d d' there field comparisons

/-- The leaves of a filter ask what the filter compares. -/
theorem asksAlike_of_compares {c : Context} {d d' : Dialect} {f : Filter}
    (h : ∀ owner key comparisons, c.Compares collection f owner key comparisons →
      s.ComparesAlike d d' owner key comparisons) :
    ∀ leaf ∈ c.leaves collection [] f, c.AsksAlike s d d' collection leaf := by
  intro leaf hleaf
  cases leaf with
  | compared parents key comparisons => exact fun owner howner => h _ _ _ (.leaf hleaf howner)
  | related parents key quantifier g =>
    exact fun owner link r hlink hr there field comparisons hcompares =>
      h _ _ _ (.inside hleaf hlink hr hcompares)

/-! ## Existential conditions -/

theorem quantifiedLink_relabelled (hops : Hops) (parents : List String) (segment : String) :
    (s.context options' names').quantifiedLink (hops.relabelled labels) parents segment =
      ((s.context options names).quantifiedLink hops parents segment).map
        fun found => (found.1.relabelled labels, found.2) := by
  unfold quantifiedLink
  dsimp only
  rw [Hops.relabelled_get?]
  cases hops.get? parents with
  | none => rfl
  | some hop =>
    have hlink : (s.context options' names').link (hop.relabelled labels).collection segment =
        (s.context options names).link hop.collection segment := rfl
    dsimp only [Option.map_some]
    rw [hlink]
    cases ((s.context options names).link hop.collection segment).isToMany <;> rfl

/-- The keys of related rows are read from their collection, by its own name. -/
theorem relabelled_relatedKeys {owner : String} {link : Link} {r : Relation} {q : Query}
    {polymorphic : Bool} {k k' : Nat}
    (h : (relatedKeys owner link).Gives k (r, q, polymorphic) k')
    (hfixed : labels r.collection = r.collection) : q.relabelled labels = q := by
  obtain ⟨known, hknown, rfl⟩ := isReferring_of_relatedKeys h
  rw [Query.relabelled_eq]
  cases hknown <;>
    simp [Relation.keysWith, Item.relabelled, TableRef.relabelled, hfixed]

/-- A statement is restricted alike where the condition on its joins is built alike. -/
theorem inStep_restricted {joined joined' : Compile (Scope × Bool)}
    {condition condition' : Hops → Compile (Option Expr)} {P : Hops → Prop}
    (hjoined : InStep exact (fun result result' => (result.1.Alike exact labels result'.1 ∧
        result'.2 = result.2) ∧ P result.1.hops) joined joined')
    (hcondition : ∀ hops, P hops → InStep exact
      (fun e? e'? => exact → e'? = e?.map (Expr.relabelled labels))
      (condition hops) (condition' (hops.relabelled labels))) :
    InStep exact (fun result result' => (result.1.Alike exact labels result'.1 ∧
        result'.2 = result.2) ∧ P result.1.hops)
      (restricted joined condition) (restricted joined' condition') := by
  unfold restricted
  refine hjoined.bind fun ⟨scope, several⟩ ⟨scope', several'⟩ ⟨⟨hscope, hseveral⟩, hP⟩ => ?_
  dsimp only at hscope hseveral hP ⊢
  have hbuilt := hcondition scope.hops hP
  rw [← hscope.hops] at hbuilt
  rw [hseveral]
  refine hbuilt.bind fun e? e'? he => ?_
  have hquery := hscope.query.addCondition? he
  cases e? <;> cases e'? <;> exact inStep_pure ⟨⟨⟨hquery, hscope.hops⟩, rfl⟩, hP⟩

/-- An existential condition is the same but for the labels if the condition on the related rows is
so, on whatever joins lead where their paths lead. -/
theorem inStep_existential (h : s.Respells labels names names') (owner table : String)
    {link : Link} (quantifier : Quantifier) {f : Filter} (hf : f.IsUnfolded)
    (hcondition : ∀ r hops, link.relation? = some r → labels r.collection = r.collection →
      hops.Leads (s.context options names) r.collection →
      InStep exact (fun e? e'? => exact → e'? = e?.map (Expr.relabelled labels))
        ((s.context options names).condition? hops r.collection [] f)
        ((s.context options' names').condition? (hops.relabelled labels) r.collection [] f)) :
    InStep exact (fun e e' => exact → e' = e.relabelled labels)
      ((s.context options names).existential owner table link quantifier f
        fun related hops => (s.context options names).condition? hops related [] f)
      ((s.context options' names').existential owner (labels table) link quantifier f
        fun related hops => (s.context options' names').condition? hops related [] f) := by
  unfold existential amongKeys addFilter
  refine (inStep_refl _).gives.bind fun ⟨r, keys, polymorphic⟩ _ ⟨hsame, k, k', hkeys⟩ => ?_
  subst hsame
  obtain ⟨known, hknown, -⟩ := isReferring_of_relatedKeys hkeys
  refine (inStep_collection r.collection).bind fun info info' ⟨_, hinfo⟩ => ?_
  have hfixed := h.fixed r.collection info hinfo
  have hquery : keys.Alike exact labels keys := by
    refine .refl_of_relabelled (fun _ => relabelled_relatedKeys hkeys hfixed) ?_
    obtain ⟨-, -, rfl⟩ := isReferring_of_relatedKeys hkeys
    rfl
  have hkeys : Scope.Alike exact labels { query := keys } { query := keys } := ⟨hquery, rfl⟩
  refine (inStep_restricted (P := fun hops => hops.Leads (s.context options names) r.collection)
    ((inStep_joinFilter h hfixed [] f hkeys).gives.mono
      fun joined _ ⟨hboth, i, i', hjoin⟩ => ⟨hboth, Hops.Leads.empty.joinFilter hf hjoin⟩)
    fun hops hleads => hcondition r hops hknown.relation?_eq hfixed hleads).bind
      fun ⟨scope, several⟩ ⟨scope', several'⟩ ⟨⟨hscope, _⟩, _⟩ => ?_
  refine (inStep_refl _).bind fun primary primary' hprimary => ?_
  refine inStep_pure fun hexact => ?_
  rw [hscope.query.whole hexact, ← hprimary]
  cases polymorphic <;> simp

/-! ## Conditions -/

/-- What is asked of a field by a filter on related rows is the same but for the labels. -/
theorem inStep_quantified (h : s.Respells labels names names')
    (hroot : labels collection = collection) {hops : Hops} {parents : List String} {key : String}
    {quantifier : Quantifier} {f : Filter} (hf : f.IsUnfolded)
    (hcondition : ∀ owner table link,
      (s.context options names).IsAsked hops collection parents key owner table link →
      ∀ r inside, link.relation? = some r → labels r.collection = r.collection →
      inside.Leads (s.context options names) r.collection →
      InStep exact (fun e? e'? => exact → e'? = e?.map (Expr.relabelled labels))
        ((s.context options names).condition? inside r.collection [] f)
        ((s.context options' names').condition? (inside.relabelled labels) r.collection [] f)) :
    InStep exact (fun e? e'? => exact → e'? = e?.map (Expr.relabelled labels))
      ((s.context options names).fieldCondition? hops collection parents key
        (.quantified quantifier f))
      ((s.context options' names').fieldCondition? (hops.relabelled labels) collection parents key
        (.quantified quantifier f)) := by
  have hstart : (s.context options' names').startsExistential collection parents key =
      (s.context options names).startsExistential collection parents key := rfl
  have hlink : (s.context options' names').link collection key =
      (s.context options names).link collection key := rfl
  rw [fieldCondition?, fieldCondition?, hstart, hlink]
  split
  · next hexistential =>
    have hasked : (s.context options names).IsAsked hops collection parents key collection
        collection ((s.context options names).link collection key) :=
      ⟨(Bool.and_eq_true_iff.mp hexistential).2, .inl ⟨hexistential, rfl, rfl, rfl⟩⟩
    have hsame := inStep_existential h collection collection quantifier hf
      (hcondition _ _ _ hasked)
    rw [hroot] at hsame
    exact hsame.map fun e e' he hexact => by rw [he hexact, Option.map_some]
  · next hjoined =>
    rw [quantifiedLink_relabelled]
    refine (inStep_lift (Except.Matches.map_self _ _)).gives.bind
      fun ⟨hop, link⟩ _ ⟨hsame, k, k', hlink⟩ => ?_
    subst hsame
    obtain ⟨hfound, hsegment, hmany⟩ := quantifiedLink_eq_ok (Compile.gives_lift.mp hlink).1
    have hasked : (s.context options names).IsAsked hops collection parents key hop.collection
        hop.name link :=
      ⟨hmany, .inr ⟨Bool.eq_false_iff.mpr hjoined, hop, hfound, rfl, rfl, hsegment⟩⟩
    exact (inStep_existential h _ _ quantifier hf (hcondition _ _ _ hasked)).map
      fun e e' he hexact => by rw [he hexact, Option.map_some]

theorem map_toList_append {part part' : Option Expr} {parts parts' : List Expr} {f : Expr → Expr}
    (hpart : part' = part.map f) (hparts : parts' = parts.map f) :
    part'.toList ++ parts' = (part.toList ++ parts).map f := by
  rw [hpart, hparts, List.map_append, Option.toList_map]

/-- A nested filter on rows that refer back to the root asks for some of them. -/
theorem nested_eq_quantified {c : Context} {hops : Hops} {parents : List String} {key : String}
    {f : Filter} (hstart : c.startsExistential collection parents key = true) :
    c.fieldCondition? hops collection parents key (.nested f) =
      c.fieldCondition? hops collection parents key (.quantified .some f) := by
  rw [fieldCondition?, fieldCondition?, if_pos hstart, if_pos hstart]

mutual
/-- The condition of a filter is the same but for the labels where the dialects say alike what its
leaves ask. -/
theorem inStep_condition? (h : s.Respells labels names names')
    {collection : String} (hroot : labels collection = collection) {hops : Hops}
    (hleads : hops.Leads (s.context options names) collection) (parents : List String) (f : Filter)
    (hparents : IsPath parents) (hf : f.IsUnfolded)
    (hsame : exact → ∀ leaf ∈ (s.context options names).leaves collection parents f,
      (s.context options names).AsksAlike s options.dialect options'.dialect collection leaf) :
    InStep exact (fun e? e'? => exact → e'? = e?.map (Expr.relabelled labels))
      ((s.context options names).condition? hops collection parents f)
      ((s.context options' names').condition? (hops.relabelled labels) collection parents f) := by
  obtain ⟨clauses⟩ := f
  rw [Filter.IsUnfolded] at hf
  rw [leaves] at hsame
  rw [condition?, condition?]
  exact (inStep_clauseConditions h hroot hleads parents clauses hparents hf hsame).map
    fun parts parts' hparts hexact => by rw [hparts hexact, relabelled_conjunction?]

theorem inStep_clauseConditions (h : s.Respells labels names names')
    {collection : String} (hroot : labels collection = collection) {hops : Hops}
    (hleads : hops.Leads (s.context options names) collection) (parents : List String)
    (clauses : List Clause) (hparents : IsPath parents) (hf : AreUnfoldedClauses clauses)
    (hsame : exact → ∀ leaf ∈ (s.context options names).clausesLeaves collection parents clauses,
      (s.context options names).AsksAlike s options.dialect options'.dialect collection leaf) :
    InStep exact (fun parts parts' => exact → parts' = parts.map (Expr.relabelled labels))
      ((s.context options names).clauseConditions hops collection parents clauses)
      ((s.context options' names').clauseConditions (hops.relabelled labels) collection parents
        clauses) := by
  cases clauses with
  | nil =>
    rw [clauseConditions, clauseConditions]
    exact inStep_pure fun _ => rfl
  | cons clause rest =>
    rw [AreUnfoldedClauses] at hf
    rw [clausesLeaves] at hsame
    rw [clauseConditions, clauseConditions]
    refine (inStep_clauseCondition? h hroot hleads parents clause hparents hf.1
      fun hexact leaf hmem => hsame hexact leaf (List.mem_append_left _ hmem)).bind
        fun part part' hpart => ?_
    refine (inStep_clauseConditions h hroot hleads parents rest hparents hf.2
      fun hexact leaf hmem => hsame hexact leaf (List.mem_append_right _ hmem)).bind
        fun parts parts' hparts => ?_
    exact inStep_pure fun hexact => map_toList_append (hpart hexact) (hparts hexact)

theorem inStep_clauseCondition? (h : s.Respells labels names names')
    {collection : String} (hroot : labels collection = collection) {hops : Hops}
    (hleads : hops.Leads (s.context options names) collection) (parents : List String)
    (clause : Clause) (hparents : IsPath parents) (hf : clause.IsUnfolded)
    (hsame : exact → ∀ leaf ∈ (s.context options names).clauseLeaves collection parents clause,
      (s.context options names).AsksAlike s options.dialect options'.dialect collection leaf) :
    InStep exact (fun e? e'? => exact → e'? = e?.map (Expr.relabelled labels))
      ((s.context options names).clauseCondition? hops collection parents clause)
      ((s.context options' names').clauseCondition? (hops.relabelled labels) collection parents
        clause) := by
  cases clause with
  | all filters =>
    rw [Clause.IsUnfolded] at hf
    rw [clauseLeaves] at hsame
    rw [clauseCondition?, clauseCondition?]
    exact (inStep_groupConditions h hroot hleads parents filters hparents hf hsame).map
      fun parts parts' hparts hexact => by rw [hparts hexact, relabelled_conjunction?]
  | any filters =>
    rw [Clause.IsUnfolded] at hf
    rw [clauseLeaves] at hsame
    rw [clauseCondition?, clauseCondition?]
    split
    · exact inStep_pure fun _ => rfl
    · next hrestricts =>
      rw [if_neg hrestricts] at hsame
      exact (inStep_groupConditions h hroot hleads parents filters hparents hf hsame).map
        fun parts parts' hparts hexact => by rw [hparts hexact, relabelled_disjunction?]
  | field key condition =>
    rw [Clause.IsUnfolded] at hf
    rw [clauseLeaves] at hsame
    rw [clauseCondition?, clauseCondition?]
    exact inStep_fieldCondition? h hroot hleads parents key condition hparents hf.1 hf.2 hsame

theorem inStep_groupConditions (h : s.Respells labels names names')
    {collection : String} (hroot : labels collection = collection) {hops : Hops}
    (hleads : hops.Leads (s.context options names) collection) (parents : List String)
    (filters : List Filter) (hparents : IsPath parents) (hf : AreUnfolded filters)
    (hsame : exact → ∀ leaf ∈ (s.context options names).filtersLeaves collection parents filters,
      (s.context options names).AsksAlike s options.dialect options'.dialect collection leaf) :
    InStep exact (fun parts parts' => exact → parts' = parts.map (Expr.relabelled labels))
      ((s.context options names).groupConditions hops collection parents filters)
      ((s.context options' names').groupConditions (hops.relabelled labels) collection parents
        filters) := by
  cases filters with
  | nil =>
    rw [groupConditions, groupConditions]
    exact inStep_pure fun _ => rfl
  | cons f rest =>
    rw [AreUnfolded] at hf
    rw [filtersLeaves] at hsame
    rw [groupConditions, groupConditions]
    refine (inStep_condition? h hroot hleads parents f hparents hf.1 fun hexact leaf hmem =>
      hsame hexact leaf (List.mem_append_left _ hmem)).bind fun part part' hpart => ?_
    refine (inStep_groupConditions h hroot hleads parents rest hparents hf.2 fun hexact leaf hmem =>
      hsame hexact leaf (List.mem_append_right _ hmem)).bind fun parts parts' hparts => ?_
    refine inStep_pure fun hexact => map_toList_append ?_ (hparts hexact)
    rw [hpart hexact, Option.map_map, Option.map_map]
    exact congrArg (Option.map · part) (funext fun e => (relabelled_paren e).symm)

theorem inStep_fieldCondition? (h : s.Respells labels names names')
    {collection : String} (hroot : labels collection = collection) {hops : Hops}
    (hleads : hops.Leads (s.context options names) collection) (parents : List String)
    (key : String) (condition : FieldCondition) (hparents : IsPath parents) (hkey : IsSegment key)
    (hf : condition.IsUnfolded)
    (hsame : exact → ∀ leaf ∈ (s.context options names).conditionLeaves collection parents key
        condition,
      (s.context options names).AsksAlike s options.dialect options'.dialect collection leaf) :
    InStep exact (fun e? e'? => exact → e'? = e?.map (Expr.relabelled labels))
      ((s.context options names).fieldCondition? hops collection parents key condition)
      ((s.context options' names').fieldCondition? (hops.relabelled labels) collection parents key
        condition) := by
  cases condition with
  | compare comparisons =>
    rw [conditionLeaves] at hsame
    refine inStep_compared h hroot fun hexact place hplace => ?_
    exact hsame hexact _ (List.mem_singleton_self _) _ (hleads.placeOf hparents hplace)
  | quantified quantifier f =>
    rw [FieldCondition.IsUnfolded] at hf
    rw [conditionLeaves] at hsame
    refine inStep_quantified h hroot hf fun owner table link hasked r inside hr hfixed hinside => ?_
    refine inStep_condition? h hfixed hinside [] f isPath_nil hf fun hexact => ?_
    exact asksAlike_of_compares (hsame hexact _ (List.mem_singleton_self _) owner link r
      (hleads.relatedLink? hparents hasked) hr)
  | nested f =>
    rw [FieldCondition.IsUnfolded] at hf
    rw [conditionLeaves] at hsame
    cases hstart : (s.context options names).startsExistential collection parents key with
    | true =>
      -- a nested filter on rows that refer back asks for some of them
      rw [if_pos hstart] at hsame
      have hstart' : (s.context options' names').startsExistential collection parents key = true :=
        hstart
      rw [nested_eq_quantified hstart, nested_eq_quantified hstart']
      refine inStep_quantified h hroot hf
        fun owner table link hasked r inside hr hfixed hinside => ?_
      refine inStep_condition? h hfixed hinside [] f isPath_nil hf fun hexact => ?_
      exact asksAlike_of_compares (hsame hexact _ (List.mem_singleton_self _) owner link r
        (hleads.relatedLink? hparents hasked) hr)
    | false =>
      rw [if_neg (Bool.eq_false_iff.mp hstart)] at hsame
      have hstart' : (s.context options' names').startsExistential collection parents key = false :=
        hstart
      rw [fieldCondition?, fieldCondition?, if_neg (Bool.eq_false_iff.mp hstart),
        if_neg (Bool.eq_false_iff.mp hstart')]
      exact inStep_condition? h hroot hleads _ f (hparents.append hkey.trim) hf hsame
end

/-- A filter restricts statements alike where the dialects say alike what it compares. -/
theorem inStep_restrict (h : s.Respells labels names names')
    (hroot : labels collection = collection) {f : Filter} {scope scope' : Scope}
    (hscope : scope.Alike exact labels scope')
    (hleads : scope.hops.Leads (s.context options names) collection)
    (hsame : exact → ∀ owner key comparisons,
      (s.context options names).Compares collection f.unfolded owner key comparisons →
      s.ComparesAlike options.dialect options'.dialect owner key comparisons) :
    InStep exact (fun result result' => (result.1.Alike exact labels result'.1 ∧
        result'.2 = result.2) ∧ result.1.hops.Leads (s.context options names) collection)
      ((s.context options names).restrict inner collection scope f)
      ((s.context options' names').restrict inner collection scope' f) := by
  rw [restrict_eq, restrict_eq]
  have hf := isUnfolded_unfolded f
  refine inStep_restricted
    ((inStep_joinFilter h hroot [] f.unfolded hscope).gives.mono
      fun joined _ ⟨hboth, k, k', hjoin⟩ => ⟨hboth, hleads.joinFilter hf hjoin⟩)
    fun hops hinside => ?_
  exact inStep_condition? h hroot hinside [] f.unfolded isPath_nil hf fun hexact =>
    asksAlike_of_compares (hsame hexact)

/-! ## Orderings, groups and aggregations -/

/-- Two dialects say alike what the last segment of a path reads, wherever the path leads. -/
def PathsAlike (c : Context) (s : Schema) (d d' : Dialect) (collection : String)
    (path : List String) : Prop :=
  ∀ owner key, c.destination? collection path.dropLast = some owner → path.getLast? = some key →
    s.ReadsAlike d d' owner key

theorem inStep_joinedColumn (h : s.Respells labels names names')
    (hroot : labels collection = collection) {scope scope' : Scope} {key : String}
    (hscope : scope.Alike exact labels scope')
    (hleads : scope.hops.Leads (s.context options names) collection)
    (hsame : exact → (s.context options names).PathsAlike s options.dialect options'.dialect
      collection (fieldPath key)) :
    InStep exact (fun found found' => (found.1.Alike exact labels found'.1 ∧
        found.1.hops.Leads (s.context options names) collection) ∧
        (exact → found'.2.expr = found.2.expr.relabelled labels))
      ((s.context options names).joinedColumn collection scope key)
      ((s.context options' names').joinedColumn collection scope' key) := by
  unfold joinedColumn
  have hpath := isPath_fieldPath key
  refine (inStep_joinPath h hroot (fieldPath key) hscope).gives.bind
    fun ⟨joined, several⟩ ⟨joined', several'⟩ ⟨⟨hjoined, _⟩, k, k', hjoin⟩ => ?_
  have hinside := hleads.joinPath hpath hjoin
  dsimp only at hjoined ⊢
  rw [hjoined.hops]
  refine (inStep_column h hroot fun hexact place last hplace hlast => ?_).bind
    fun column column' hcolumn => inStep_pure ⟨⟨hjoined, hinside⟩, fun hexact => ?_⟩
  · have hparents : IsPath (fieldPath key).dropLast :=
      fun segment hmem => hpath segment (List.dropLast_subset _ hmem)
    exact hsame hexact place.collection last (hinside.placeOf hparents hplace) hlast
  · rw [hcolumn hexact]

theorem inStep_sortBy (h : s.Respells labels names names') (hroot : labels collection = collection)
    {scope scope' : Scope} {entry : String} (hscope : scope.Alike exact labels scope')
    (hleads : scope.hops.Leads (s.context options names) collection)
    (hsame : exact → (s.context options names).PathsAlike s options.dialect options'.dialect
      collection (sortPath entry)) :
    InStep exact (fun found found' => found.Alike exact labels found' ∧
        found.hops.Leads (s.context options names) collection)
      ((s.context options names).sortBy collection scope entry)
      ((s.context options' names').sortBy collection scope' entry) := by
  unfold sortBy
  refine (inStep_refl _).gives.bind fun ⟨direction, key⟩ _ ⟨hkey, k, k', hsort⟩ => ?_
  subst hkey
  rw [← fieldPath_of_sortKey (Compile.gives_lift.mp hsort).1] at hsame
  refine (inStep_joinedColumn h hroot hscope hleads hsame).bind
    fun found found' ⟨⟨hfound, hinside⟩, he⟩ => inStep_pure ⟨⟨?_, hfound.hops⟩, hinside⟩
  exact hfound.query.addOrder he direction

theorem inStep_groupBy (h : s.Respells labels names names') (hroot : labels collection = collection)
    {scope scope' : Scope} {key : String} (hscope : scope.Alike exact labels scope')
    (hleads : scope.hops.Leads (s.context options names) collection)
    (hsame : exact → (s.context options names).PathsAlike s options.dialect options'.dialect
      collection (fieldPath key)) :
    InStep exact (fun found found' => found.Alike exact labels found' ∧
        found.hops.Leads (s.context options names) collection)
      ((s.context options names).groupBy collection scope key)
      ((s.context options' names').groupBy collection scope' key) := by
  unfold groupBy
  refine (inStep_joinedColumn h hroot hscope hleads hsame).bind
    fun found found' ⟨⟨hfound, hinside⟩, he⟩ => inStep_pure ⟨⟨?_, hfound.hops⟩, hinside⟩
  exact (hfound.query.addGroup he).addItem he (some key)

theorem inStep_joinAggregate (h : s.Respells labels names names')
    (hroot : labels collection = collection) {scope scope' : Scope}
    {aggregate : List (Aggregation × List String)} (hscope : scope.Alike exact labels scope')
    (hleads : scope.hops.Leads (s.context options names) collection) :
    InStep exact (fun found found' => found.Alike exact labels found' ∧
        found.hops.Leads (s.context options names) collection)
      ((s.context options names).joinAggregate collection scope aggregate)
      ((s.context options' names').joinAggregate collection scope' aggregate) := by
  unfold joinAggregate
  refine inStep_foldlM (fun field _ before before' ⟨hbefore, hinside⟩ => ?_) ⟨hscope, hleads⟩
  exact (inStep_joinPath h hroot (fieldPath field) hbefore).gives.map
    fun joined joined' ⟨hjoined, k, k', hjoin⟩ =>
      ⟨hjoined.1, hinside.joinPath (isPath_fieldPath field) hjoin⟩

theorem inStep_aggregateExpr (h : s.Respells labels names names') {info : CollectionInfo}
    (hroot : labels info.name = info.name) {scope scope' : Scope} {aggregation : Aggregation}
    {field : String} (hscope : scope.Alike exact labels scope')
    (hleads : scope.hops.Leads (s.context options names) info.name)
    (hsame : exact → (s.context options names).PathsAlike s options.dialect options'.dialect
      info.name (fieldPath field)) :
    InStep exact (fun e e' => exact → e' = e.relabelled labels)
      ((s.context options names).aggregateExpr info scope aggregation field)
      ((s.context options' names').aggregateExpr info scope' aggregation field) := by
  have hjoins : scope'.query.hasJoins = scope.query.hasJoins := by
    unfold Query.hasJoins
    rw [hscope.query.joins, List.isEmpty_map]
  unfold aggregateExpr
  rw [hjoins, hscope.hops]
  split
  · split
    · refine inStep_pure fun _ => ?_
      split <;> simp [hroot]
    · exact inStep_throw _
  · refine (inStep_column h hroot fun hexact place last hplace hlast => ?_).bind
      fun column column' hcolumn => inStep_pure fun hexact => ?_
    · have hparents : IsPath (fieldPath field).dropLast :=
        fun segment hmem => isPath_fieldPath field segment (List.dropLast_subset _ hmem)
      exact hsame hexact place.collection last (hleads.placeOf hparents hplace) hlast
    · rw [hcolumn hexact, relabelled_aggregation]

theorem inStep_addAggregate (h : s.Respells labels names names') {info : CollectionInfo}
    (hroot : labels info.name = info.name) {scope scope' : Scope}
    {aggregate : List (Aggregation × List String)} (hscope : scope.Alike exact labels scope')
    (hleads : scope.hops.Leads (s.context options names) info.name)
    (hsame : exact → ∀ field ∈ aggregate.flatMap Prod.snd,
      (s.context options names).PathsAlike s options.dialect options'.dialect info.name
        (fieldPath field)) :
    InStep exact (fun found found' => found.query.Alike exact labels found'.query)
      ((s.context options names).addAggregate info scope aggregate)
      ((s.context options' names').addAggregate info scope' aggregate) := by
  unfold addAggregate
  refine (inStep_joinAggregate h hroot hscope hleads).bind
    fun joined joined' ⟨hjoined, hinside⟩ => ?_
  refine (inStep_mapM (R := List.Forall₂ fun item item' : Item => item'.label = item.label ∧
    (exact → item'.expr = item.expr.relabelled labels)) fun entry hentry => ?_).bind
      fun items items' hitems => inStep_pure (hjoined.query.addItems (List.rel_flatten hitems))
  unfold aggregateItems
  dsimp only
  split
  · exact inStep_pure (.cons ⟨rfl, fun _ => relabelled_countRows.symm⟩ .nil)
  · refine inStep_mapM fun field hfield => ?_
    refine (inStep_aggregateExpr h hroot hjoined hinside fun hexact => ?_).bind
      fun e e' he => inStep_pure ⟨rfl, he⟩
    exact hsame hexact field (List.mem_flatMap.mpr ⟨entry, hentry, hfield⟩)

/-! ## Requests -/

/-- Where the request is portable, dialects say alike what its orderings, groups and aggregations
read. -/
theorem pathsAlike_of_isPortable {c : Context} {d d' : Dialect} {r : Request}
    (h : d = d' ∨ c.IsPortable s collection r) {path : List String}
    (hpath : path ∈ r.sort.map sortPath ++ r.group.map fieldPath ++
      (r.aggregate.flatMap Prod.snd).map fieldPath) :
    c.PathsAlike s d d' collection path :=
  fun owner key howner hkey => h.imp id fun hportable =>
    hportable.reads path hpath owner key howner hkey

theorem inStep_orderStage (h : s.Respells labels names names')
    (hroot : labels collection = collection) {q : Query} {r : Request}
    (hwindow : options'.window r = options.window r) (hq : q.Alike exact labels q)
    (hsame : exact → options.dialect = options'.dialect ∨
      (s.context options names).IsPortable s collection r) :
    InStep exact (fun found found' => found.Alike exact labels found' ∧
        found.hops.Leads (s.context options names) collection)
      ((s.context options names).orderStage collection inner r q)
      ((s.context options' names').orderStage collection inner r q) := by
  unfold orderStage
  split
  · exact inStep_pure ⟨⟨hq, rfl⟩, .empty⟩
  · rw [Schema.context_options, Schema.context_options, hwindow]
    refine inStep_foldlM (fun entry hentry before before' ⟨hbefore, hinside⟩ =>
      inStep_sortBy h hroot hbefore hinside fun hexact => ?_) ⟨⟨hq.narrow _, rfl⟩, .empty⟩
    exact pathsAlike_of_isPortable (hsame hexact)
      (List.mem_append_left _ (List.mem_append_left _ (List.mem_map_of_mem hentry)))

theorem inStep_searchStage (hroot : labels collection = collection) {r : Request}
    {scope scope' : Scope} (hscope : scope.Alike exact labels scope')
    (hleads : scope.hops.Leads (s.context options names) collection) :
    InStep exact (fun found found' => found.Alike exact labels found' ∧
        found.hops.Leads (s.context options names) collection)
      ((s.context options names).searchStage collection r scope)
      ((s.context options' names').searchStage collection r scope') := by
  unfold searchStage
  split
  · exact inStep_pure ⟨hscope, hleads⟩
  · next term _ =>
    unfold search
    refine InStep.map (R := fun q q' => q.Alike exact labels q') ?_
      fun q q' hq => ⟨⟨hq, hscope.hops⟩, hleads⟩
    refine (inStep_refl _).bind fun fields fields' hfields => inStep_pure ?_
    rw [← hfields]
    exact hscope.query.addCondition fun _ => (relabelled_searchCondition hroot _ _).symm

theorem inStep_groupStage (h : s.Respells labels names names')
    (hroot : labels collection = collection) {r : Request} {scope scope' : Scope}
    (hscope : scope.Alike exact labels scope')
    (hleads : scope.hops.Leads (s.context options names) collection)
    (hsame : exact → options.dialect = options'.dialect ∨
      (s.context options names).IsPortable s collection r) :
    InStep exact (fun found found' => found.Alike exact labels found' ∧
        found.hops.Leads (s.context options names) collection)
      (r.group.foldlM ((s.context options names).groupBy collection) scope)
      (r.group.foldlM ((s.context options' names').groupBy collection) scope') := by
  refine inStep_foldlM (fun key hkey before before' ⟨hbefore, hinside⟩ =>
    inStep_groupBy h hroot hbefore hinside fun hexact => ?_) ⟨hscope, hleads⟩
  exact pathsAlike_of_isPortable (hsame hexact)
    (List.mem_append_left _ (List.mem_append_right _ (List.mem_map_of_mem hkey)))

theorem inStep_filterStage (h : s.Respells labels names names')
    (hroot : labels collection = collection) {r : Request} {scope scope' : Scope}
    (hscope : scope.Alike exact labels scope')
    (hleads : scope.hops.Leads (s.context options names) collection)
    (hsame : exact → options.dialect = options'.dialect ∨
      (s.context options names).IsPortable s collection r) :
    InStep exact (fun found found' => (found.1.Alike exact labels found'.1 ∧
        found'.2 = found.2) ∧ found.1.hops.Leads (s.context options names) collection)
      ((s.context options names).filterStage collection inner r scope)
      ((s.context options' names').filterStage collection inner r scope') := by
  unfold filterStage
  cases hfilter : r.filter with
  | none => exact inStep_pure ⟨⟨hscope, rfl⟩, hleads⟩
  | some f =>
    refine inStep_restrict h hroot hscope hleads fun hexact owner key comparisons hcompares => ?_
    exact (hsame hexact).imp id fun hportable =>
      hportable.compares f hfilter owner key comparisons hcompares

/-- A request is added to a statement in lockstep. -/
theorem inStep_apply (h : s.Respells labels names names') {q : Query} {r : Request}
    (hwindow : options'.window r = options.window r)
    (hq : labels collection = collection → q.Alike exact labels q)
    (hsame : exact → options.dialect = options'.dialect ∨
      (s.context options names).IsPortable s collection r) :
    InStep exact (fun applied applied' => applied.query.Alike exact labels applied'.query)
      ((s.context options names).apply collection q r inner)
      ((s.context options' names').apply collection q r inner) := by
  rw [apply_eq, apply_eq]
  refine (inStep_collection collection).bind fun info info' ⟨hinfo, hfound⟩ => ?_
  subst hinfo
  have hroot := h.fixed collection _ hfound
  refine (inStep_orderStage h hroot hwindow (hq hroot) hsame).bind
    fun ordered ordered' ⟨hordered, hleads₁⟩ => ?_
  refine (inStep_searchStage hroot hordered hleads₁).bind
    fun searched searched' ⟨hsearched, hleads₂⟩ => ?_
  refine (inStep_groupStage h hroot hsearched hleads₂ hsame).bind
    fun grouped grouped' ⟨hgrouped, hleads₃⟩ => ?_
  refine (inStep_filterStage h hroot hgrouped hleads₃ hsame).bind
    fun ⟨restricted, repeats⟩ ⟨restricted', repeats'⟩ ⟨⟨hrestricted, _⟩, hleads₄⟩ => ?_
  refine InStep.bind (R := fun found found' : Scope => found.query.Alike exact labels found'.query)
    ?_ fun found found' hfound => inStep_pure hfound
  unfold aggregateStage
  split
  · exact inStep_pure hrestricted.query
  · have hname := s.name_of_collection hfound
    refine inStep_addAggregate h (by rw [hname, hroot]) hrestricted (by rwa [hname])
      fun hexact field hfield => ?_
    rw [hname]
    exact pathsAlike_of_isPortable (hsame hexact)
      (List.mem_append_right _ (List.mem_map_of_mem hfield))

end Context

/-! ## Statements -/

/-- The statement that a request is added to reads the collection by its own name. -/
theorem Compiler.target_alike (hroot : labels collection = collection) (r : Request) :
    (target collection r).Alike exact labels (target collection r) := by
  refine .refl_of_relabelled (fun _ => ?_) (target_joins collection r)
  unfold target
  dsimp only
  split <;>
    simp [Query.relabelled_eq, Query.selectAllOf, Item.relabelled, TableRef.relabelled,
      Expr.relabelled, hroot]

/-- Two compilations of a request with other aliases, or for other dialects.  Their statements are
alike; where the dialects say alike what the request asks, one compilation fails if and only if the
other does, for the same reason, and else gives the same statement under other labels. -/
theorem matches_compile (h : s.Respells labels names names') {r : Request}
    (hwindow : options'.window r = options.window r)
    (hsame : exact → options.dialect = options'.dialect ∨
      (s.context options names).IsPortable s collection r) :
    Except.Matches exact (Query.Alike exact labels)
      (Compiler.compile { provider := s.provider, options, names } collection r)
      (Compiler.compile { provider := s.provider, options := options', names := names' } collection
        r) := by
  have hcompile (options : Options) (names : Nat → String) :
      Compiler.compile { provider := s.provider, options, names } collection r =
        (((s.context options names).apply collection (Compiler.target collection r) r false) 0).map
          fun found => found.1.query := by
    show (do
      let applied ← (do
        let result ← ((s.context options names).apply collection
          (Compiler.target collection r) r false) 0
        return result.1 : Except QueryError Applied)
      return applied.query) = _
    cases ((s.context options names).apply collection (Compiler.target collection r) r false) 0 <;>
      rfl
  rw [hcompile, hcompile]
  exact (Context.inStep_apply h hwindow (fun hroot => Compiler.target_alike hroot r) hsame 0).map
    fun found found' hfound => hfound.1

end JsonSql
