import JsonSql.Proofs.Columns
import JsonSql.Proofs.Joins
import JsonSql.Schema.Validity

set_option autoImplicit false

/-!
# Compiled statements have their shape

Each pass keeps the shape of a statement (`IsStatement`), and the joins that it records go by names
that the statement knows.  The main result is `isStatement_of_compile`: whatever a request compiles
to has the shape.
-/

namespace JsonSql

open JsonSql.Sql

/-- A statement of the right shape whose recorded joins are joins of the statement. -/
structure Scope.IsSound (collection : String) (scope : Scope) : Prop where
  statement : IsStatement collection scope.query
  hops : ∀ path hop, scope.hops.get? path = some hop →
    hop.name ∈ joinNames scope.query.joins

namespace Scope.IsSound

variable {collection : String} {scope : Scope}

theorem known (h : scope.IsSound collection) :
    Context.KnownHops (knownNames collection scope.query) collection scope.hops := by
  refine ⟨List.mem_append_right _ List.mem_cons_self, fun path hop hfound => ?_⟩
  exact List.mem_append_left _ (h.hops path hop hfound)

/-- Without joins any statement of the right shape will do. -/
theorem ofStatement {q : Query} (h : IsStatement collection q) :
    IsSound collection { query := q } :=
  ⟨h, fun path hop hfound => by cases hfound⟩

/-- The query may change in all but its joins. -/
theorem replace (h : scope.IsSound collection) {q : Query} (hq : IsStatement collection q)
    (hjoins : q.joins = scope.query.joins) : IsSound collection { scope with query := q } := by
  refine ⟨hq, fun path hop hfound => ?_⟩
  rw [hjoins]
  exact h.hops path hop hfound

end Scope.IsSound

namespace Context

variable {c : Context} {collection : String} {inner : Bool} {k k' : Nat}

/-- One more join keeps a scope sound. -/
theorem isSound_of_joinStep {path before : List String} {scope scope' : Scope}
    {segment target : String} {place : Place} {condition : Expr} (h : scope.IsSound collection)
    (hstep : JoinStep c collection path scope k before segment place target condition scope' k') :
    scope'.IsSound collection := by
  obtain ⟨-, hreach, -, hjoin, rfl⟩ := hstep
  have hplace : place.table ∈ knownNames collection scope.query := by
    cases hreach with
    | root => exact h.known.1
    | hop hfound => exact h.known.2 _ _ hfound
  refine ⟨h.statement.addJoin ((isLink_of_joinTarget hjoin).mono ?_), ?_⟩
  · intro name hname
    rcases List.mem_cons.mp hname with rfl | hname
    · exact List.mem_cons_self
    · rw [List.mem_singleton.mp hname]
      exact List.mem_cons_of_mem _ hplace
  · intro path hop hfound
    simp only [Query.addJoin_joins, joinNames_append, List.mem_append]
    rcases Hops.get?_insert_eq_some hfound with ⟨-, rfl⟩ | ⟨-, hold⟩
    · exact .inr List.mem_cons_self
    · exact .inl (h.hops path hop hold)

theorem isSound_of_joinPath {scope scope' : Scope} {path : List String} {several : Bool}
    (h : scope.IsSound collection)
    (hjoin : (c.joinPath inner collection scope path).Gives k (scope', several) k') :
    scope'.IsSound collection :=
  joinPath_keeps (P := fun s _ => s.IsSound collection) isSound_of_joinStep h hjoin

theorem isSound_of_joinFilter {scope scope' : Scope} {parents : List String} {f : Filter}
    {several : Bool} (h : scope.IsSound collection)
    (hjoin : (c.joinFilter inner collection parents scope f).Gives k (scope', several) k') :
    scope'.IsSound collection :=
  joinFilter_keeps (P := fun s _ => s.IsSound collection) (fun _ => isSound_of_joinStep) h hjoin

/-! ## Existential conditions -/

/-- The keys of related rows are a statement on their collection, and their condition never
disappears. -/
theorem relatedKeys_gives {link : Link} {r : Relation} {q : Query} {polymorphic : Bool}
    (h : (relatedKeys collection link).Gives k (r, q, polymorphic) k') :
    IsStatement r.collection q ∧ q.joins = [] ∧ q.condition.isSome ∧
      q = { items := [⟨.of r.collection r.field, none⟩]
            source := some ⟨r.collection, none⟩
            condition := q.condition } := by
  have hkey : IsColumn [r.collection] (.of r.collection r.field) := .plain _ List.mem_cons_self
  have hkeys : IsStatement r.collection (relatedKeys.keys r) := by
    refine ⟨rfl, trivial, ?_, ?_, ?_, ?_⟩
    · intro item hitem
      rw [List.mem_singleton.mp hitem]
      exact .column hkey
    · intro e he
      rw [← Option.some.inj he]
      exact .predicate hkey (.null true)
    · intro e he
      cases he
    · intro o ho
      cases ho
  cases link with
  | oneToMany s =>
    obtain ⟨hresult, -⟩ := Compile.gives_pure.mp h
    cases hresult
    exact ⟨hkeys, rfl, rfl, rfl⟩
  | oneToAny s =>
    unfold relatedKeys at h
    dsimp only at h
    split at h
    · exact absurd h Compile.not_gives_throw
    · next column _ =>
      obtain ⟨hresult, -⟩ := Compile.gives_pure.mp h
      cases hresult
      refine ⟨hkeys.addCondition ?_, rfl, rfl, rfl⟩
      exact .predicate (.plain column List.mem_cons_self) (.compare (.string collection) rfl)
  | none => exact absurd h Compile.not_gives_throw
  | manyToOne s => exact absurd h Compile.not_gives_throw
  | manyToAny s scope => exact absurd h Compile.not_gives_throw

theorem relatedKeys_count {link : Link} {result : Relation × Query × Bool}
    (h : (relatedKeys collection link).Gives k result k') : k' = k := by
  cases link with
  | oneToMany r => exact (Compile.gives_pure.mp h).2
  | oneToAny r =>
    unfold relatedKeys at h
    dsimp only at h
    split at h
    · exact absurd h Compile.not_gives_throw
    · exact (Compile.gives_pure.mp h).2
  | none => exact absurd h Compile.not_gives_throw
  | manyToOne r => exact absurd h Compile.not_gives_throw
  | manyToAny r scope => exact absurd h Compile.not_gives_throw

/-- What joins leave alone in a statement. -/
def sameButJoins (q q' : Query) : Prop :=
  q' = { q with joins := q'.joins }

theorem sameButJoins_refl (q : Query) : sameButJoins q q := by
  cases q
  rfl

theorem sameButJoins_of_joinFilter {q : Query} {scope scope' : Scope} {parents : List String}
    {f : Filter} {several : Bool}
    (hjoin : (c.joinFilter inner collection parents scope f).Gives k (scope', several) k')
    (h : sameButJoins q scope.query) : sameButJoins q scope'.query := by
  refine joinFilter_keeps (P := fun s _ => sameButJoins q s.query) ?_ h hjoin
  intro path scope k before segment place target condition scope' k' _ h hstep
  rw [sameButJoins] at h ⊢
  rw [hstep.result, h]
  rfl

/-- What adding a filter to a statement does: it joins, and conjoins a condition if there is one. -/
theorem addFilter_gives {scope scope' : Scope} {f : Filter} {several : Bool}
    {condition : Hops → Compile (Option Expr)}
    (h : (c.addFilter inner collection scope f condition).Gives k (scope', several) k') :
    ∃ scope₁ k₁ e?, (c.joinFilter inner collection [] scope f).Gives k (scope₁, several) k₁ ∧
      (condition scope₁.hops).Gives k₁ e? k' ∧ scope'.hops = scope₁.hops ∧
      scope'.query = match e? with
        | some e => scope₁.query.addCondition e
        | none => scope₁.query := by
  simp only [addFilter, restricted, Compile.gives_bind] at h
  obtain ⟨⟨scope₁, several₁⟩, k₁, hjoin, e?, k₂, hcondition, h⟩ := h
  cases e? with
  | none =>
    obtain ⟨hresult, rfl⟩ := Compile.gives_pure.mp h
    cases hresult
    exact ⟨scope₁, k₁, none, hjoin, hcondition, rfl, rfl⟩
  | some e =>
    obtain ⟨hresult, rfl⟩ := Compile.gives_pure.mp h
    cases hresult
    exact ⟨scope₁, k₁, some e, hjoin, hcondition, rfl, rfl⟩

/-- What a filter restricts a statement to is added segment by segment. -/
theorem addFilter_of_restrict {f : Filter} {restricted : Scope × Bool} {scope : Scope}
    (h : (c.restrict inner collection scope f).Gives k restricted k') :
    (c.addFilter inner collection scope f.unfolded fun hops =>
      c.condition? hops collection [] f.unfolded).Gives k restricted k' :=
  restrict_eq scope f ▸ h

/-- What an existential condition is made of: the keys of related rows with the joins and the
condition of a filter, and the key of the outer row. -/
theorem existential_gives {table : String} {link : Link} {quantifier : Quantifier} {f : Filter}
    {condition : String → Hops → Compile (Option Expr)} {e : Expr}
    (h : (c.existential collection table link quantifier f condition).Gives k e k') :
    ∃ r keys polymorphic scope several primary k₁,
      (relatedKeys collection link).Gives k (r, keys, polymorphic) k ∧
      (∃ info, c.provider.collection r.collection = .ok (some info)) ∧
      (c.addFilter true r.collection { query := keys } f (condition r.collection)).Gives k
        (scope, several) k₁ ∧
      (c.primary collection).Gives k₁ primary k' ∧
      e = .inQuery (if polymorphic then .cast (.of table primary) .text else .of table primary)
        scope.query (quantifier = .none) := by
  simp only [existential, amongKeys, Compile.gives_bind, Compile.gives_pure] at h
  obtain ⟨⟨r, keys, polymorphic⟩, k₁, hkeys, info, k₂, hinfo, ⟨scope, several⟩, k₃, hfilter,
    primary, k₄, hprimary, rfl, rfl⟩ := h
  have hk : k₁ = k := relatedKeys_count hkeys
  subst hk
  obtain ⟨hfound, hk⟩ := collection_gives.mp hinfo
  subst hk
  exact ⟨r, keys, polymorphic, scope, several, primary, k₃, hkeys, ⟨info, hfound⟩, hfilter,
    hprimary, rfl⟩

/-- An existential condition has the shape of a condition if its filter builds conditions of the
shape on the joins of its own statement. -/
theorem isCondition_of_existential {names : List String} {table : String} {link : Link}
    {quantifier : Quantifier} {f : Filter} {condition : String → Hops → Compile (Option Expr)}
    {e : Expr} (htable : table ∈ names)
    (hcondition : ∀ {related hops own e k k'}, KnownHops own related hops →
      (condition related hops).Gives k (some e) k' → IsCondition own e)
    (h : (c.existential collection table link quantifier f condition).Gives k e k') :
    IsCondition names e := by
  obtain ⟨r, keys, polymorphic, scope, several, primary, k₁, hkeys, -, hfilter, -, rfl⟩ :=
    existential_gives h
  obtain ⟨hstatement, -, hsome, hshape⟩ := relatedKeys_gives hkeys
  obtain ⟨scope₁, k₂, e?, hjoin, he, -, hquery⟩ := addFilter_gives hfilter
  have hsound := isSound_of_joinFilter (.ofStatement hstatement) hjoin
  have hsame : sameButJoins keys scope₁.query :=
    sameButJoins_of_joinFilter hjoin (sameButJoins_refl keys)
  have hfinal : IsStatement r.collection scope.query := by
    rw [hquery]
    cases e? with
    | none => exact hsound.statement
    | some e => exact hsound.statement.addCondition (hcondition hsound.known he)
  -- the final statement still selects the key only, and still has a condition
  obtain ⟨e, hq⟩ : ∃ e, scope.query = {
      items := [⟨.of r.collection r.field, none⟩]
      source := some ⟨r.collection, none⟩
      joins := scope.query.joins
      condition := some e } := by
    obtain ⟨old, hold⟩ := Option.isSome_iff_exists.mp hsome
    rw [sameButJoins, hshape, hold] at hsame
    rw [hquery]
    cases e? with
    | none => exact ⟨old, by rw [hsame]⟩
    | some e => exact ⟨.both old.guarded e.guarded, by rw [hsame]; rfl⟩
  rw [hq]
  refine .existential r.collection r.field _ ?_ hfinal.joins (hfinal.condition e (by rw [hq]; rfl))
  cases polymorphic with
  | false => exact .plain primary htable
  | true => exact .text primary htable

/-! ## Conditions -/

theorem quantifiedLink_mem {names : List String} {hops : Hops} {parents : List String}
    {segment : String} {hop : Hop} {link : Link} (hknown : KnownHops names collection hops)
    (h : c.quantifiedLink hops parents segment = .ok (hop, link)) : hop.name ∈ names := by
  unfold quantifiedLink at h
  dsimp only at h
  split at h
  · cases h
  · next found hfound =>
    split at h
    · cases h
      exact hknown.2 parents _ hfound
    · cases h

mutual
/-- The condition of a filter has the shape of a condition. -/
theorem isCondition_of_condition? {names : List String} {collection : String} {hops : Hops}
    (parents : List String) (f : Filter) {e : Expr} {k k' : Nat}
    (hknown : KnownHops names collection hops)
    (h : (c.condition? hops collection parents f).Gives k (some e) k') :
    IsCondition names e := by
  obtain ⟨clauses⟩ := f
  rw [condition?, Compile.gives_map] at h
  obtain ⟨parts, hparts, he⟩ := h
  exact isCondition_conjunction?
    (isCondition_of_clauseConditions parents clauses hknown hparts) he.symm

theorem isCondition_of_clauseConditions {names : List String} {collection : String} {hops : Hops}
    (parents : List String) (clauses : List Clause) {parts : List Expr} {k k' : Nat}
    (hknown : KnownHops names collection hops)
    (h : (c.clauseConditions hops collection parents clauses).Gives k parts k') :
    ∀ p ∈ parts, IsCondition names p := by
  cases clauses with
  | nil =>
    rw [clauseConditions, Compile.gives_pure] at h
    rw [h.1]
    simp
  | cons clause rest =>
    simp only [clauseConditions, Compile.gives_bind, Compile.gives_pure] at h
    obtain ⟨part, k₁, hpart, parts₁, k₂, hrest, rfl, rfl⟩ := h
    intro p hp
    rcases List.mem_append.mp hp with hp | hp
    · rw [Option.mem_toList] at hp
      rw [hp] at hpart
      exact isCondition_of_clauseCondition? parents clause hknown hpart
    · exact isCondition_of_clauseConditions parents rest hknown hrest p hp

theorem isCondition_of_clauseCondition? {names : List String} {collection : String} {hops : Hops}
    (parents : List String) (clause : Clause) {e : Expr} {k k' : Nat}
    (hknown : KnownHops names collection hops)
    (h : (c.clauseCondition? hops collection parents clause).Gives k (some e) k') :
    IsCondition names e := by
  cases clause with
  | all filters =>
    rw [clauseCondition?, Compile.gives_map] at h
    obtain ⟨parts, hparts, he⟩ := h
    exact isCondition_conjunction?
      (isCondition_of_groupConditions parents filters hknown hparts) he.symm
  | any filters =>
    rw [clauseCondition?] at h
    split at h
    · obtain ⟨he, -⟩ := Compile.gives_pure.mp h
      cases he
    · rw [Compile.gives_map] at h
      obtain ⟨parts, hparts, he⟩ := h
      exact isCondition_disjunction?
        (isCondition_of_groupConditions parents filters hknown hparts) he.symm
  | field key condition =>
    rw [clauseCondition?] at h
    exact isCondition_of_fieldCondition? parents key condition hknown h

theorem isCondition_of_groupConditions {names : List String} {collection : String} {hops : Hops}
    (parents : List String) (filters : List Filter) {parts : List Expr} {k k' : Nat}
    (hknown : KnownHops names collection hops)
    (h : (c.groupConditions hops collection parents filters).Gives k parts k') :
    ∀ p ∈ parts, IsCondition names p := by
  cases filters with
  | nil =>
    rw [groupConditions, Compile.gives_pure] at h
    rw [h.1]
    simp
  | cons f rest =>
    simp only [groupConditions, Compile.gives_bind, Compile.gives_pure] at h
    obtain ⟨part, k₁, hpart, parts₁, k₂, hrest, rfl, rfl⟩ := h
    intro p hp
    rcases List.mem_append.mp hp with hp | hp
    · rw [Option.mem_toList, Option.map_eq_some_iff] at hp
      obtain ⟨e, rfl, rfl⟩ := hp
      exact .paren (isCondition_of_condition? parents f hknown hpart)
    · exact isCondition_of_groupConditions parents rest hknown hrest p hp

theorem isCondition_of_fieldCondition? {names : List String} {collection : String} {hops : Hops}
    (parents : List String) (key : String) (condition : FieldCondition) {e : Expr} {k k' : Nat}
    (hknown : KnownHops names collection hops)
    (h : (c.fieldCondition? hops collection parents key condition).Gives k (some e) k') :
    IsCondition names e := by
  cases condition with
  | compare comparisons =>
    rw [fieldCondition?] at h
    split at h
    · simp at h
    · simp only [Compile.gives_bind, Compile.gives_lift] at h
      obtain ⟨column, k₁, hcolumn, he, -⟩ := h
      exact isCondition_of_compareAll? (isColumn_of_column hknown hcolumn) he
  | nested f =>
    rw [fieldCondition?] at h
    split at h
    · simp only [Compile.gives_map, Option.some.injEq] at h
      obtain ⟨e, he, rfl⟩ := h
      exact isCondition_of_existential hknown.1
        (fun hown => isCondition_of_condition? [] f hown) he
    · exact isCondition_of_condition? _ f hknown h
  | quantified quantifier f =>
    rw [fieldCondition?] at h
    split at h
    · simp only [Compile.gives_map, Option.some.injEq] at h
      obtain ⟨e, he, rfl⟩ := h
      exact isCondition_of_existential hknown.1
        (fun hown => isCondition_of_condition? [] f hown) he
    · simp only [Compile.gives_bind, Compile.gives_lift, Compile.gives_map,
        Option.some.injEq] at h
      obtain ⟨⟨hop, link⟩, k₁, ⟨hlink, rfl⟩, e, he, rfl⟩ := h
      exact isCondition_of_existential (quantifiedLink_mem hknown hlink)
        (fun hown => isCondition_of_condition? [] f hown) he
end

theorem isSound_of_restrict {scope scope' : Scope} {f : Filter} {several : Bool}
    (hscope : scope.IsSound collection)
    (h : (c.restrict inner collection scope f).Gives k (scope', several) k') :
    scope'.IsSound collection := by
  obtain ⟨scope₁, k₁, e?, hjoin, he, hhops, hquery⟩ :=
    addFilter_gives (addFilter_of_restrict h)
  have hsound := isSound_of_joinFilter hscope hjoin
  cases e? with
  | none =>
    refine ⟨by rw [hquery]; exact hsound.statement, ?_⟩
    rw [hhops, hquery]
    exact hsound.hops
  | some e =>
    have hcondition := isCondition_of_condition? [] f.unfolded hsound.known he
    refine ⟨by rw [hquery]; exact hsound.statement.addCondition hcondition, ?_⟩
    rw [hhops, hquery]
    exact hsound.hops

/-! ## Searches -/

theorem isCondition_of_searchPredicate? {names : List String} {term : String} {f : Field}
    {e : Expr} (hcollection : collection ∈ names)
    (h : searchPredicate? collection term f = some e) : IsCondition names e := by
  have hcolumn : IsColumn names (.of collection f.name) := .plain _ hcollection
  unfold searchPredicate? at h
  dsimp only at h
  split at h
  · cases h
  · split at h
    · cases h
      exact .predicate hcolumn (.compareLower _ rfl)
    · obtain ⟨value, -, rfl⟩ := Option.map_eq_some_iff.mp h
      exact .predicate hcolumn (.compare value rfl)

theorem isCondition_searchCondition {names : List String} (term : String) (fields : List Field)
    (hcollection : collection ∈ names) :
    IsCondition names (searchCondition collection term fields) := by
  unfold searchCondition
  cases hfound : disjunction? (fields.filterMap (searchPredicate? collection term)) with
  | none => exact .never names
  | some e =>
    refine isCondition_disjunction? ?_ hfound
    intro p hp
    obtain ⟨f, -, hf⟩ := List.mem_filterMap.mp hp
    exact isCondition_of_searchPredicate? hcollection hf

theorem isSound_of_search {scope : Scope} {term : String} {q : Query}
    (hscope : scope.IsSound collection)
    (h : (c.search collection scope.query term).Gives k q k') :
    Scope.IsSound collection { scope with query := q } := by
  simp only [search, Compile.gives_bind, Compile.gives_pure] at h
  obtain ⟨fields, k₁, -, rfl, -⟩ := h
  exact hscope.replace
    (hscope.statement.addCondition (isCondition_searchCondition _ _ hscope.known.1)) rfl

/-! ## Orderings, groups and aggregations -/

theorem joinedColumn_gives {scope scope' : Scope} {key : String} {column : Column}
    (hscope : scope.IsSound collection)
    (h : (c.joinedColumn collection scope key).Gives k (scope', column) k') :
    scope'.IsSound collection ∧
      IsColumn (knownNames collection scope'.query) column.expr := by
  simp only [joinedColumn, Compile.gives_bind, Compile.gives_pure] at h
  obtain ⟨⟨scope₁, several⟩, k₁, hjoin, found, k₂, hcolumn, hresult, -⟩ := h
  cases hresult
  have hsound := isSound_of_joinPath hscope hjoin
  exact ⟨hsound, isColumn_of_column hsound.known hcolumn⟩

theorem isSound_of_sortBy {scope scope' : Scope} {entry : String}
    (hscope : scope.IsSound collection)
    (h : (c.sortBy collection scope entry).Gives k scope' k') : scope'.IsSound collection := by
  simp only [sortBy, Compile.gives_bind, Compile.gives_pure] at h
  obtain ⟨⟨direction, key⟩, k₁, -, ⟨scope₁, column⟩, k₂, hjoined, rfl, -⟩ := h
  obtain ⟨hsound, hcolumn⟩ := joinedColumn_gives hscope hjoined
  exact hsound.replace (hsound.statement.addOrder hcolumn) rfl

theorem isSound_of_groupBy {scope scope' : Scope} {key : String}
    (hscope : scope.IsSound collection)
    (h : (c.groupBy collection scope key).Gives k scope' k') : scope'.IsSound collection := by
  simp only [groupBy, Compile.gives_bind, Compile.gives_pure] at h
  obtain ⟨⟨scope₁, column⟩, k₁, hjoined, rfl, -⟩ := h
  obtain ⟨hsound, hcolumn⟩ := joinedColumn_gives hscope hjoined
  exact hsound.replace ((hsound.statement.addGroup hcolumn).addItem (.column hcolumn)) rfl

theorem isSound_of_joinAggregate {scope scope' : Scope}
    {aggregate : List (Aggregation × List String)} (hscope : scope.IsSound collection)
    (h : (c.joinAggregate collection scope aggregate).Gives k scope' k') :
    scope'.IsSound collection := by
  refine Compile.foldlM_keeps (P := fun s _ => s.IsSound collection) ?_ hscope h
  intro scope field k scope' k' hscope h
  obtain ⟨⟨scope₁, several⟩, hjoin, rfl⟩ := Compile.gives_map.mp h
  exact isSound_of_joinPath hscope hjoin

theorem isItem_of_aggregateExpr {info : CollectionInfo} {scope : Scope}
    {aggregation : Aggregation} {field : String} {e : Expr} (hscope : scope.IsSound info.name)
    (h : (c.aggregateExpr info scope aggregation field).Gives k e k') :
    IsItem (knownNames info.name scope.query) e := by
  unfold aggregateExpr at h
  split at h
  · split at h
    · obtain ⟨rfl, -⟩ := Compile.gives_pure.mp h
      split
      · exact .aggregation .countDistinct (.plain _ hscope.known.1)
      · exact .rows
    · exact absurd h Compile.not_gives_throw
  · simp only [Compile.gives_bind, Compile.gives_pure] at h
    obtain ⟨column, k₁, hcolumn, rfl, -⟩ := h
    exact .aggregation aggregation (isColumn_of_column hscope.known hcolumn)

theorem isItem_of_aggregateItems {info : CollectionInfo} {scope : Scope}
    {entry : Aggregation × List String} {items : List Item} (hscope : scope.IsSound info.name)
    (h : (c.aggregateItems info scope entry).Gives k items k') :
    ∀ item ∈ items, IsItem (knownNames info.name scope.query) item.expr := by
  obtain ⟨aggregation, fields⟩ := entry
  unfold aggregateItems at h
  dsimp only at h
  split at h
  · obtain ⟨rfl, -⟩ := Compile.gives_pure.mp h
    intro item hitem
    rw [List.mem_singleton.mp hitem]
    exact .rows
  · refine Compile.mapM_all (fun {field k item k'} hitem => ?_) h
    simp only [Compile.gives_bind, Compile.gives_pure] at hitem
    obtain ⟨e, k₁, he, rfl, -⟩ := hitem
    exact isItem_of_aggregateExpr hscope he

theorem isSound_addItems {scope : Scope} (hscope : scope.IsSound collection) {items : List Item}
    (hitems : ∀ item ∈ items, IsItem (knownNames collection scope.query) item.expr) :
    Scope.IsSound collection { scope with query := items.foldl Query.addItem scope.query } := by
  induction items generalizing scope with
  | nil => exact hscope
  | cons item rest ih =>
    have hitem := hitems item List.mem_cons_self
    have hnext : Scope.IsSound collection { scope with query := scope.query.addItem item } :=
      hscope.replace (hscope.statement.addItem hitem) rfl
    exact ih hnext fun i hi => hitems i (List.mem_cons_of_mem _ hi)

theorem isSound_of_addAggregate {info : CollectionInfo} {scope scope' : Scope}
    {aggregate : List (Aggregation × List String)} (hscope : scope.IsSound info.name)
    (h : (c.addAggregate info scope aggregate).Gives k scope' k') :
    scope'.IsSound info.name := by
  simp only [addAggregate, Compile.gives_bind, Compile.gives_pure] at h
  obtain ⟨scope₁, k₁, hjoin, items, k₂, hitems, rfl, -⟩ := h
  have hsound := isSound_of_joinAggregate hscope hjoin
  refine isSound_addItems hsound ?_
  intro item hitem
  obtain ⟨group, hgroup, hitem⟩ := List.mem_flatten.mp hitem
  exact Compile.mapM_all (P := fun items => ∀ item ∈ items, IsItem _ item.expr)
    (isItem_of_aggregateItems hsound) hitems group hgroup item hitem

/-! ## Requests

Adding a request to a statement, stage by stage. -/

/-- The row window and the ordering, which an inner statement does not get. -/
def orderStage (c : Context) (collection : String) (inner : Bool) (r : Request) (q : Query) :
    Compile Scope :=
  if inner then return { query := q }
  else r.sort.foldlM (c.sortBy collection) { query := Query.narrow q (c.options.window r) }

/-- The search for a term, if there is one. -/
def searchStage (c : Context) (collection : String) (r : Request) (scope : Scope) :
    Compile Scope :=
  match r.search with
  | none => return scope
  | some term => (fun q => { scope with query := q }) <$> c.search collection scope.query term

/-- The filter, if there is one. -/
def filterStage (c : Context) (collection : String) (inner : Bool) (r : Request)
    (scope : Scope) : Compile (Scope × Bool) :=
  match r.filter with
  | none => return (scope, false)
  | some f => c.restrict inner collection scope f

/-- The aggregations, if there are any. -/
def aggregateStage (c : Context) (info : CollectionInfo) (r : Request) (scope : Scope) :
    Compile Scope :=
  if r.aggregate.isEmpty then return scope else c.addAggregate info scope r.aggregate

/-- A request is added in these stages. -/
theorem apply_eq (c : Context) (collection : String) (q : Query) (r : Request) (inner : Bool) :
    c.apply collection q r inner = (do
      let info ← c.collection collection
      let scope ← c.orderStage collection inner r q
      let scope ← c.searchStage collection r scope
      let scope ← r.group.foldlM (c.groupBy collection) scope
      let (scope, repeatsRows) ← c.filterStage collection inner r scope
      let scope ← c.aggregateStage info r scope
      return { query := scope.query, repeatsRows }) := by
  unfold Context.apply orderStage searchStage filterStage aggregateStage
  cases inner <;> cases r.search <;> cases r.filter <;> cases r.aggregate.isEmpty <;> simp

/-- A request is added to a statement on a collection that there is. -/
theorem collection_of_apply {q : Query} {r : Request} {inner : Bool} {applied : Applied}
    (h : (c.apply collection q r inner).Gives k applied k') :
    ∃ info, c.provider.collection collection = .ok (some info) := by
  rw [apply_eq, Compile.gives_bind] at h
  obtain ⟨info, k₁, hinfo, -⟩ := h
  exact ⟨info, (collection_gives.mp hinfo).1⟩

theorem isStatement_of_apply {q : Query} {r : Request} {applied : Applied}
    (hnamed : ∀ info, c.provider.collection collection = .ok (some info) →
      info.name = collection)
    (hq : IsStatement collection q)
    (h : (c.apply collection q r inner).Gives k applied k') :
    IsStatement collection applied.query := by
  simp only [apply_eq, Compile.gives_bind, Compile.gives_pure] at h
  obtain ⟨info, k₁, hinfo, scope₁, k₂, horder, scope₂, k₃, hsearch, scope₃, k₄, hgroup,
    ⟨scope₄, repeatsRows⟩, k₅, hfilter, scope₅, k₆, haggregate, rfl, -⟩ := h
  have h₁ : scope₁.IsSound collection := by
    unfold orderStage at horder
    split at horder
    · obtain ⟨rfl, -⟩ := Compile.gives_pure.mp horder
      exact .ofStatement hq
    · exact Compile.foldlM_keeps (P := fun s _ => s.IsSound collection) isSound_of_sortBy
        (.ofStatement (hq.narrow _)) horder
  have h₂ : scope₂.IsSound collection := by
    unfold searchStage at hsearch
    split at hsearch
    · obtain ⟨rfl, -⟩ := Compile.gives_pure.mp hsearch
      exact h₁
    · obtain ⟨q, hq, rfl⟩ := Compile.gives_map.mp hsearch
      exact isSound_of_search h₁ hq
  have h₃ : scope₃.IsSound collection :=
    Compile.foldlM_keeps (P := fun s _ => s.IsSound collection) isSound_of_groupBy h₂ hgroup
  have h₄ : scope₄.IsSound collection := by
    unfold filterStage at hfilter
    split at hfilter
    · obtain ⟨hresult, -⟩ := Compile.gives_pure.mp hfilter
      cases hresult
      exact h₃
    · exact isSound_of_restrict h₃ hfilter
  have h₅ : scope₅.IsSound collection := by
    unfold aggregateStage at haggregate
    split at haggregate
    · obtain ⟨rfl, -⟩ := Compile.gives_pure.mp haggregate
      exact h₄
    · have hname := hnamed info (collection_gives.mp hinfo).1
      subst hname
      exact isSound_of_addAggregate h₄ haggregate
  exact h₅.statement

end Context

/-! ## Compiled statements -/

namespace Compiler

variable {compiler : Compiler} {collection : String}

theorem apply_eq_ok {q : Query} {r : Request} {inner : Bool} {applied : Applied}
    (h : compiler.apply collection q r inner = .ok applied) :
    ∃ relations k, compiler.provider.relations = .ok relations ∧
      (Context.apply { compiler with relations } collection q r inner).Gives 0 applied k := by
  rw [apply, Except.bind_eq_ok_iff] at h
  obtain ⟨relations, hrelations, h⟩ := h
  rw [Except.bind_eq_ok_iff] at h
  obtain ⟨⟨found, k⟩, hfound, h⟩ := h
  cases h
  refine ⟨relations, k, ?_, hfound⟩
  cases hask : compiler.provider.relations with
  | error e =>
    rw [hask] at hrelations
    cases hrelations
  | ok found =>
    rw [hask] at hrelations
    cases hrelations
    rfl

theorem compile_eq_ok {q : Query} {r : Request} (h : compiler.compile collection r = .ok q) :
    ∃ applied, compiler.apply collection (target collection r) r false = .ok applied ∧
      q = applied.query := by
  rw [compile, Except.bind_eq_ok_iff] at h
  obtain ⟨applied, happlied, h⟩ := h
  cases h
  exact ⟨applied, happlied, rfl⟩

theorem target_joins (collection : String) (r : Request) : (target collection r).joins = [] := by
  unfold target
  dsimp only
  split <;> rfl

theorem target_condition (collection : String) (r : Request) :
    (target collection r).condition = none := by
  unfold target
  dsimp only
  split <;> rfl

theorem target_groups (collection : String) (r : Request) :
    (target collection r).groups = [] := by
  unfold target
  dsimp only
  split <;> rfl

theorem isStatement_target (collection : String) (r : Request) :
    IsStatement collection (target collection r) := by
  have hempty : IsStatement collection { source := some ⟨collection, none⟩ } := by
    refine ⟨rfl, trivial, ?_, ?_, ?_, ?_⟩ <;> intro e he <;> cases he
  unfold target
  dsimp only
  split
  · exact hempty
  · refine ⟨rfl, trivial, ?_, hempty.condition, hempty.groups, hempty.orders⟩
    intro item hitem
    rw [List.mem_singleton.mp hitem]
    exact .table (List.mem_append_right _ List.mem_cons_self)

end Compiler

/-- A collection of a schema goes by its name. -/
theorem Schema.name_of_collection {s : Schema} {name : String} {info : CollectionInfo}
    (h : s.provider.collection name = .ok (some info)) : info.name = name := by
  simp only [provider, collection?, Except.ok.injEq, Option.map_eq_some_iff] at h
  obtain ⟨found, hfound, rfl⟩ := h
  simpa using List.find?_some hfound

/-- Adding a request to a statement of the right shape gives one. -/
theorem isStatement_of_apply {s : Schema} {options : Options} {names : Nat → String}
    {collection : String} {q : Query} {r : Request} {inner : Bool} {applied : Applied}
    (hq : IsStatement collection q)
    (h : Compiler.apply { provider := s.provider, options, names } collection q r inner =
      .ok applied) :
    IsStatement collection applied.query := by
  obtain ⟨relations, k, -, happly⟩ := Compiler.apply_eq_ok h
  exact Context.isStatement_of_apply (fun info hinfo => s.name_of_collection hinfo) hq happly

/-- Whatever a request compiles to has the shape of compiled statements. -/
theorem isStatement_of_compile {s : Schema} {options : Options} {names : Nat → String}
    {collection : String} {r : Request} {q : Query}
    (h : Compiler.compile { provider := s.provider, options, names } collection r = .ok q) :
    IsStatement collection q := by
  obtain ⟨applied, happlied, rfl⟩ := Compiler.compile_eq_ok h
  exact isStatement_of_apply (Compiler.isStatement_target collection r) happlied

/-! ## A schema to try statements on -/

/-- Articles with an author and comments. -/
def Schema.blog : Schema where
  collections := [
    { info := { name := "articles", primary := "id" }
      fields := [⟨"id", .integer, [], none⟩, ⟨"title", .string, [], none⟩,
        ⟨"author", .integer, [], none⟩, ⟨"comments", .virtual, ["o2m"], none⟩] },
    { info := { name := "authors", primary := "id" }
      fields := [⟨"id", .integer, [], none⟩, ⟨"name", .string, [], none⟩] },
    { info := { name := "comments", primary := "id" }
      fields := [⟨"id", .integer, [], none⟩, ⟨"article", .integer, [], none⟩,
        ⟨"author", .integer, [], none⟩, ⟨"body", .text, [], none⟩] }]
  relations := [
    { collection := "articles", field := "author", related := some "authors" },
    { collection := "comments", field := "article", related := some "articles"
      info := { oneField := some "comments" } },
    { collection := "comments", field := "author", related := some "authors" }]

example : Schema.blog.validate = .ok { collections := 3, fields := 10, relations := 3 } := by
  decide +kernel

/-- Articles with some comment by Ann, or without an author and with more than one comment, by the
name of their author. -/
def Request.blog : Request where
  filter := some ⟨[.any [
    .of (.field "comments" (.quantified .some
      (.of (.field "author.name" (.compare [⟨.equal false false, some (.string "Ann")⟩]))))),
    ⟨[.field "author.id" (.compare [⟨.null false, none⟩]),
      .field "count(comments)" (.compare [⟨.greater, some (.number (.int 1))⟩])]⟩]]⟩
  sort := ["-author.name"]

/-- The compiler of the schema with sequential aliases. -/
def Compiler.blog (d : Dialect) : Compiler :=
  { provider := Schema.blog.provider, options := { dialect := d }, names := Alias.sequential }

/-- A compilation that gives some statement gives one. -/
theorem Compiler.exists_compile {c : Compiler} {collection : String} {r : Request}
    (h : (c.compile collection r).toOption.isSome = true) :
    ∃ q, c.compile collection r = .ok q := by
  cases hq : c.compile collection r with
  | error e =>
    rw [hq] at h
    cases h
  | ok q => exact ⟨q, rfl⟩

/-- A compilation that gives a statement with a property. -/
theorem Compiler.exists_compile_with {α : Type} {c : Compiler} {collection : String} {r : Request}
    {f : Query → α} {a : α} (h : (c.compile collection r).toOption.map f = some a) :
    ∃ q, c.compile collection r = .ok q ∧ f q = a :=
  Except.exists_eq_ok h

theorem exists_compile_blog (d : Dialect) :
    ∃ q, (Compiler.blog d).compile "articles" Request.blog = .ok q :=
  Compiler.exists_compile (by cases d <;> decide +kernel)

end JsonSql
