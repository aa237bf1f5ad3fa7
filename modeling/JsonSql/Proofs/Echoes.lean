import JsonSql.Proofs.Parallel

set_option autoImplicit false

/-!
# Steps under the aliases of another stream

A step of a compilation reads as many aliases of its stream as it issues, in their order, and no
others.  So what it gives from one count on it gives again from any other count, of the same stream
or of another one, at which the next aliases are spelled like those that it has issued
(`Compile.Echoes`).  For a condition the record of joins may differ too, where the paths of its
filter do not look (`echoes_condition?`).
-/

namespace JsonSql

open JsonSql.Sql

namespace Compile

variable {α β : Type} {names names' : Nat → String} {x y : Compile α}

/-- What the first step gives, and as many aliases as it has issued, the second one gives from each
count at which the next aliases are spelled alike. -/
def Echoes (names names' : Nat → String) (x y : Compile α) : Prop :=
  ∀ k a k', x.Gives k a k' → ∃ n, k' = k + n ∧
    ∀ j, (∀ i < n, names' (j + i) = names (k + i)) → y.Gives j a (j + n)

/-- A step that issues no alias, and gives the same whatever was issued before. -/
def Steady (x : Compile α) : Prop :=
  ∀ k a k', x.Gives k a k' → k' = k ∧ ∀ j, x.Gives j a j

theorem steady_pure (a : α) : Steady (pure a) := by
  intro k found k' h
  obtain ⟨rfl, rfl⟩ := gives_pure.mp h
  exact ⟨rfl, fun j => gives_pure.mpr ⟨rfl, rfl⟩⟩

theorem steady_throw (e : QueryError) : Steady (throw e : Compile α) :=
  fun _ _ _ h => absurd h not_gives_throw

theorem steady_lift (u : Except QueryError α) : Steady (liftM u : Compile α) := by
  intro k a k' h
  obtain ⟨hu, rfl⟩ := gives_lift.mp h
  exact ⟨rfl, fun j => gives_lift.mpr ⟨hu, rfl⟩⟩

theorem Steady.bind {f : α → Compile β} (h : Steady x) (hnext : ∀ a, Steady (f a)) :
    Steady (x >>= f) := by
  intro k b k' hgives
  obtain ⟨a, k₁, ha, hb⟩ := gives_bind.mp hgives
  obtain ⟨rfl, hfirst⟩ := h k a k₁ ha
  obtain ⟨rfl, hsecond⟩ := hnext a k₁ b k' hb
  exact ⟨rfl, fun j => gives_bind.mpr ⟨a, j, hfirst j, hsecond j⟩⟩

theorem Steady.echoes (h : Steady x) : Echoes names names' x x := by
  intro k a k' hgives
  obtain ⟨rfl, hsteady⟩ := h k a k' hgives
  exact ⟨0, rfl, fun j _ => hsteady j⟩

theorem echoes_pure (a : α) : Echoes names names' (pure a) (pure a) := (steady_pure a).echoes

theorem echoes_throw (e : QueryError) : Echoes names names' (throw e : Compile α) (throw e) :=
  (steady_throw e).echoes

theorem echoes_lift (u : Except QueryError α) : Echoes names names' (liftM u) (liftM u) :=
  (steady_lift u).echoes

/-- Two steps in a row: the second one reads the aliases after those of the first one. -/
theorem Echoes.bind {f g : α → Compile β} (h : Echoes names names' x y)
    (hnext : ∀ a, Echoes names names' (f a) (g a)) :
    Echoes names names' (x >>= f) (y >>= g) := by
  intro k b k' hgives
  obtain ⟨a, k₁, ha, hb⟩ := gives_bind.mp hgives
  obtain ⟨n, rfl, hfirst⟩ := h k a k₁ ha
  obtain ⟨m, rfl, hsecond⟩ := hnext a (k + n) b k' hb
  refine ⟨n + m, Nat.add_assoc k n m, fun j hsame => ?_⟩
  have ha' := hfirst j fun i hi => hsame i (Nat.lt_add_right m hi)
  have hb' := hsecond (j + n) fun i hi => by
    rw [Nat.add_assoc, Nat.add_assoc]
    exact hsame (n + i) (Nat.add_lt_add_left hi n)
  rw [← Nat.add_assoc]
  exact gives_bind.mpr ⟨a, j + n, ha', hb'⟩

theorem Echoes.map (f : α → β) (h : Echoes names names' x y) :
    Echoes names names' (f <$> x) (f <$> y) := by
  rw [← bind_pure_comp, ← bind_pure_comp]
  exact h.bind fun a => echoes_pure (f a)

end Compile

open Compile (Steady steady_pure steady_throw Echoes echoes_pure echoes_throw echoes_lift)

namespace Context

/-! ## Steps that read no alias -/

section

variable (c : Context)

theorem steady_collection (name : String) : Steady (c.collection name) := by
  intro k info k' h
  obtain ⟨hinfo, rfl⟩ := collection_gives.mp h
  exact ⟨rfl, fun j => collection_gives.mpr ⟨hinfo, rfl⟩⟩

theorem steady_primary (name : String) : Steady (c.primary name) := by
  intro k primary k' h
  obtain ⟨info, hinfo, rfl, rfl⟩ := primary_gives.mp h
  exact ⟨rfl, fun j => primary_gives.mpr ⟨info, hinfo, rfl, rfl⟩⟩

theorem steady_field (owner name : String) : Steady (c.field owner name) := by
  intro k field k' h
  obtain ⟨hfield, rfl⟩ := field_gives.mp h
  exact ⟨rfl, fun j => field_gives.mpr ⟨hfield, rfl⟩⟩

theorem steady_discriminator (r : Relation) (owner field : String) :
    Steady (discriminator r owner field) := by
  intro k column k' h
  obtain ⟨hcolumn, rfl⟩ := discriminator_gives.mp h
  exact ⟨rfl, fun j => discriminator_gives.mpr ⟨hcolumn, rfl⟩⟩

/-- The condition of a join does not depend on the aliases. -/
theorem steady_joinTarget (place : Place) (segment table : String) (link : Link) :
    Steady (c.joinTarget place segment table link) := by
  cases link with
  | none => exact steady_throw _
  | manyToOne r =>
    unfold joinTarget
    dsimp only
    split
    · exact steady_throw _
    · exact (c.steady_primary _).bind fun _ => steady_pure _
  | manyToAny r scope =>
    unfold joinTarget
    dsimp only
    split
    · exact steady_throw _
    · split
      · exact (steady_discriminator r _ _).bind fun _ =>
          (c.steady_primary _).bind fun _ => steady_pure _
      · exact steady_throw _
  | oneToMany r =>
    rw [joinTarget]
    exact (c.steady_primary _).bind fun _ => steady_pure _
  | oneToAny r =>
    rw [joinTarget]
    exact (steady_discriminator r _ _).bind fun _ =>
      (c.steady_primary _).bind fun _ => steady_pure _

end

/-! ## Joins -/

variable {s : Schema} {options : Options} {names names' : Nat → String} {collection : String}
  {inner : Bool}

/-- The only step that reads an alias. -/
theorem echoes_freshAlias : Echoes names names' (s.context options names).freshAlias
    (s.context options names').freshAlias := by
  intro k name k' h
  obtain ⟨rfl, rfl⟩ := freshAlias_gives.mp h
  exact ⟨1, rfl, fun j hsame => freshAlias_gives.mpr ⟨(hsame 0 Nat.one_pos).symm, rfl⟩⟩

theorem echoes_join (scope : Scope) (path : List String) (place : Place) (segment : String)
    (link : Link) :
    Echoes names names' ((s.context options names).join scope path place segment link)
      ((s.context options names').join scope path place segment link) := by
  unfold join
  exact echoes_freshAlias.bind fun name =>
    (steady_joinTarget _ place segment name link).echoes.bind fun _ => echoes_pure _

theorem echoes_joinFrom (segments : List String) :
    ∀ (before : List String) (place : Place) (scope : Scope),
      Echoes names names' ((s.context options names).joinFrom inner place before scope segments)
        ((s.context options names').joinFrom inner place before scope segments) := by
  induction segments with
  | nil => exact fun _ _ _ => echoes_pure _
  | cons segment segments ih =>
    intro before place scope
    cases segments with
    | nil => exact echoes_pure _
    | cons next rest =>
      have hlink : (s.context options names').link place.collection segment =
          (s.context options names).link place.collection segment := rfl
      rw [joinFrom_cons, joinFrom_cons, hlink]
      split
      · exact echoes_pure _
      · cases scope.hops.get? (before ++ [segment]) with
        | some hop =>
          dsimp only
          split
          · exact ih _ _ _
          · exact echoes_pure _
        | none =>
          dsimp only
          split
          · refine (echoes_join scope _ place segment _).bind fun ⟨joined, hop⟩ => ?_
            dsimp only
            split
            · exact (ih _ _ _).bind fun _ => echoes_pure _
            · exact echoes_pure _
          · exact echoes_pure _

theorem echoes_joinPaths (paths : List (List String)) (scope : Scope) :
    Echoes names names' ((s.context options names).joinPaths inner collection scope paths)
      ((s.context options names').joinPaths inner collection scope paths) := by
  induction paths generalizing scope with
  | nil => exact echoes_pure _
  | cons path rest ih =>
    rw [joinPaths, joinPaths]
    exact (echoes_joinFrom path [] (.root collection) scope).bind fun _ =>
      (ih _).bind fun _ => echoes_pure _

theorem echoes_joinFilter (parents : List String) (f : Filter) (scope : Scope) :
    Echoes names names' ((s.context options names).joinFilter inner collection parents scope f)
      ((s.context options names').joinFilter inner collection parents scope f) := by
  rw [joinFilter_eq, joinFilter_eq,
    filterPaths_congr (s.relations_context options options names' names)]
  exact echoes_joinPaths _ scope

/-! ## Columns -/

theorem echoes_countRows? (owner table : String) (link : Link) :
    Echoes names names' ((s.context options names).countRows? owner table link)
      ((s.context options names').countRows? owner table link) := by
  unfold countRows?
  refine (steady_primary _ owner).echoes.bind fun primary => echoes_freshAlias.bind fun name => ?_
  cases link with
  | none | manyToOne _ | manyToAny _ _ | oneToMany _ => exact echoes_pure _
  | oneToAny r =>
    dsimp only
    cases r.info.discriminator <;> exact echoes_pure _

theorem echoes_applyFunction (place : Place) (function path field : String) (type : FieldType) :
    Echoes names names'
      ((s.context options names).applyFunction place function path field type)
      ((s.context options names').applyFunction place function path field type) := by
  unfold applyFunction
  dsimp only
  split
  · exact echoes_throw _
  · next part _ =>
    unfold partOf
    cases type.dateKind? with
    | none => exact echoes_throw _
    | some kind =>
      dsimp only
      cases isPartOf part kind with
      | false => exact echoes_throw _
      | true => exact echoes_pure _
  · split
    · exact echoes_lift _
    · refine (echoes_countRows? _ _ _).bind fun e? => ?_
      cases e? with
      | none => exact echoes_throw _
      | some e => exact echoes_pure e

/-- Two records of joins give the parents of a path the same place. -/
theorem placeOf_congr {hops hops' : Hops} {parents : List String}
    (hsame : parents ≠ [] → hops'.get? parents = hops.get? parents) (shown : String) :
    placeOf hops' collection parents shown = placeOf hops collection parents shown := by
  unfold placeOf
  split
  · rfl
  · next hne => rw [hsame hne]

theorem echoes_column {hops hops' : Hops} {path : List String}
    (hsame : path.dropLast ≠ [] → hops'.get? path.dropLast = hops.get? path.dropLast) :
    Echoes names names' ((s.context options names).column hops collection path)
      ((s.context options names').column hops' collection path) := by
  unfold Context.column
  dsimp only
  split
  · exact echoes_throw _
  · rw [placeOf_congr hsame]
    refine (echoes_lift _).bind fun place => (steady_field _ _ _).echoes.bind fun field => ?_
    split
    · split
      · exact echoes_throw _
      · exact echoes_pure _
    · exact (echoes_applyFunction place _ _ _ _).bind fun _ => echoes_pure _

/-! ## Conditions -/

theorem echoes_restricted {joined joined' : Compile (Scope × Bool)}
    {condition condition' : Hops → Compile (Option Expr)}
    (hjoined : Echoes names names' joined joined')
    (hcondition : ∀ hops, Echoes names names' (condition hops) (condition' hops)) :
    Echoes names names' (restricted joined condition) (restricted joined' condition') := by
  unfold restricted
  refine hjoined.bind fun found => (hcondition found.1.hops).bind fun e? => ?_
  cases e? <;> exact echoes_pure _

theorem echoes_existential (owner table : String) (link : Link) (quantifier : Quantifier)
    {f : Filter} (hf : ∀ related hops, Echoes names names'
      ((s.context options names).condition? hops related [] f)
      ((s.context options names').condition? hops related [] f)) :
    Echoes names names'
      ((s.context options names).existential owner table link quantifier f
        fun related hops => (s.context options names).condition? hops related [] f)
      ((s.context options names').existential owner table link quantifier f
        fun related hops => (s.context options names').condition? hops related [] f) := by
  have hkeys : Echoes names names' (relatedKeys owner link) (relatedKeys owner link) := by
    cases link with
    | oneToMany r => exact echoes_pure _
    | oneToAny r =>
      unfold relatedKeys
      dsimp only
      cases r.info.discriminator with
      | none => exact echoes_throw _
      | some column => exact echoes_pure _
    | none | manyToOne _ | manyToAny _ _ => exact echoes_throw _
  unfold existential amongKeys addFilter
  refine hkeys.bind fun ⟨r, keys, polymorphic⟩ => ?_
  refine (steady_collection _ r.collection).echoes.bind fun _ => ?_
  refine (echoes_restricted (echoes_joinFilter [] f _) (hf r.collection)).bind fun _ => ?_
  exact (steady_primary _ owner).echoes.bind fun _ => echoes_pure _

mutual
/-- The condition of a filter is built again on any record that has the same joins for the parents
of its paths. -/
theorem echoes_condition? {hops hops' : Hops} (collection : String) (parents : List String)
    (f : Filter) (hsame : ∀ path ∈ (s.context options names).filterPaths collection parents f,
      hops'.get? path.dropLast = hops.get? path.dropLast) :
    Echoes names names' ((s.context options names).condition? hops collection parents f)
      ((s.context options names').condition? hops' collection parents f) := by
  obtain ⟨clauses⟩ := f
  rw [condition?, condition?]
  exact (echoes_clauseConditions collection parents clauses hsame).map conjunction?

theorem echoes_clauseConditions {hops hops' : Hops} (collection : String) (parents : List String)
    (clauses : List Clause)
    (hsame : ∀ path ∈ (s.context options names).clausesPaths collection parents clauses,
      hops'.get? path.dropLast = hops.get? path.dropLast) :
    Echoes names names'
      ((s.context options names).clauseConditions hops collection parents clauses)
      ((s.context options names').clauseConditions hops' collection parents clauses) := by
  cases clauses with
  | nil =>
    rw [clauseConditions, clauseConditions]
    exact echoes_pure _
  | cons clause rest =>
    rw [clausesPaths] at hsame
    rw [clauseConditions, clauseConditions]
    refine (echoes_clauseCondition? collection parents clause fun path hpath =>
      hsame path (List.mem_append_left _ hpath)).bind fun part => ?_
    refine (echoes_clauseConditions collection parents rest fun path hpath =>
      hsame path (List.mem_append_right _ hpath)).bind fun parts => ?_
    exact echoes_pure _

theorem echoes_clauseCondition? {hops hops' : Hops} (collection : String) (parents : List String)
    (clause : Clause)
    (hsame : ∀ path ∈ (s.context options names).clausePaths collection parents clause,
      hops'.get? path.dropLast = hops.get? path.dropLast) :
    Echoes names names'
      ((s.context options names).clauseCondition? hops collection parents clause)
      ((s.context options names').clauseCondition? hops' collection parents clause) := by
  cases clause with
  | all filters =>
    rw [clausePaths] at hsame
    rw [clauseCondition?, clauseCondition?]
    exact (echoes_groupConditions collection parents filters hsame).map conjunction?
  | any filters =>
    rw [clausePaths] at hsame
    rw [clauseCondition?, clauseCondition?]
    split
    · exact echoes_pure _
    · next hrestricts =>
      rw [if_neg hrestricts] at hsame
      exact (echoes_groupConditions collection parents filters hsame).map disjunction?
  | field key condition =>
    rw [clausePaths] at hsame
    rw [clauseCondition?, clauseCondition?]
    refine echoes_fieldCondition? collection parents key condition fun hjoined path hpath => ?_
    rw [if_neg (by rw [hjoined]; exact Bool.false_ne_true)] at hsame
    exact hsame path hpath

theorem echoes_groupConditions {hops hops' : Hops} (collection : String) (parents : List String)
    (filters : List Filter)
    (hsame : ∀ path ∈ (s.context options names).filtersPaths collection parents filters,
      hops'.get? path.dropLast = hops.get? path.dropLast) :
    Echoes names names'
      ((s.context options names).groupConditions hops collection parents filters)
      ((s.context options names').groupConditions hops' collection parents filters) := by
  cases filters with
  | nil =>
    rw [groupConditions, groupConditions]
    exact echoes_pure _
  | cons f rest =>
    rw [filtersPaths] at hsame
    rw [groupConditions, groupConditions]
    refine (echoes_condition? collection parents f fun path hpath =>
      hsame path (List.mem_append_left _ hpath)).bind fun part => ?_
    refine (echoes_groupConditions collection parents rest fun path hpath =>
      hsame path (List.mem_append_right _ hpath)).bind fun parts => ?_
    exact echoes_pure _

theorem echoes_fieldCondition? {hops hops' : Hops} (collection : String) (parents : List String)
    (key : String) (condition : FieldCondition)
    (hsame : (s.context options names).startsExistential collection parents key = false →
      ∀ path ∈ (s.context options names).conditionPaths collection (parents ++ [Text.trim key])
          condition,
        hops'.get? path.dropLast = hops.get? path.dropLast) :
    Echoes names names'
      ((s.context options names).fieldCondition? hops collection parents key condition)
      ((s.context options names').fieldCondition? hops' collection parents key condition) := by
  have hstart : (s.context options names').startsExistential collection parents key =
      (s.context options names).startsExistential collection parents key := rfl
  have hlink : (s.context options names').link collection key =
      (s.context options names).link collection key := rfl
  cases condition with
  | compare comparisons =>
    rw [fieldCondition?, fieldCondition?, hstart]
    split
    · intro k found k' h
      obtain ⟨_, _, hthrow, _⟩ := Compile.gives_bind.mp h
      exact absurd hthrow Compile.not_gives_throw
    · next hjoined =>
      have hparents := hsame (by simpa using hjoined) _ (List.mem_singleton_self _)
      exact (echoes_column fun _ => hparents).bind fun column => echoes_lift _
  | nested f =>
    rw [fieldCondition?, fieldCondition?, hstart, hlink]
    split
    · exact (echoes_existential _ _ _ _ fun related hops =>
        echoes_condition? related [] f fun _ _ => rfl).map some
    · next hjoined =>
      exact echoes_condition? collection (parents ++ [Text.trim key]) f
        (hsame (by simpa using hjoined))
  | quantified quantifier f =>
    rw [fieldCondition?, fieldCondition?, hstart, hlink]
    split
    · exact (echoes_existential _ _ _ _ fun related hops =>
        echoes_condition? related [] f fun _ _ => rfl).map some
    · next hjoined =>
      have hparents := hsame (by simpa using hjoined) _ (List.mem_singleton_self _)
      rw [List.dropLast_concat] at hparents
      have hfound : (s.context options names').quantifiedLink hops' parents (Text.trim key) =
          (s.context options names).quantifiedLink hops parents (Text.trim key) := by
        unfold quantifiedLink
        rw [hparents]
        rfl
      rw [hfound]
      refine (echoes_lift _).bind fun ⟨hop, link⟩ => ?_
      exact (echoes_existential _ _ _ _ fun related hops =>
        echoes_condition? related [] f fun _ _ => rfl).map some
end

end Context

end JsonSql
