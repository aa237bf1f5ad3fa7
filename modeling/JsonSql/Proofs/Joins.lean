import JsonSql.Proofs.Run
import JsonSql.Proofs.Segmentwise

set_option autoImplicit false

/-!
# Runs of joins

Joining the paths of a filter is joining a list of paths one after another, and joining a path is
making single joins from places that are already reached.  `JoinStep` says all that a single join
does; a property of scopes that single joins keep is kept along a path (`joinPath_keeps`) and by
the joins of a whole filter (`joinFilter_keeps`).
-/

namespace JsonSql

open JsonSql.Sql

/-! ## Single joins -/

/-- A join that is found after another one was put in is that one or was there before. -/
theorem Hops.get?_insert_eq_some {hops : Hops} {path other : List String} {hop found : Hop}
    (h : (hops.insert path hop).get? other = some found) :
    Hops.key other = Hops.key path ∧ found = hop ∨
      Hops.key other ≠ Hops.key path ∧ hops.get? other = some found := by
  by_cases hkey : Hops.key other = Hops.key path
  · rw [get?, hkey, ← get?, get?_insert_self] at h
    exact .inl ⟨hkey, (Option.some.inj h).symm⟩
  · rw [get?_insert_of_ne _ hkey] at h
    exact .inr ⟨hkey, h⟩

/-- The place that a path has led to: the root, or that of a join that is there. -/
inductive Scope.Reaches (collection : String) (scope : Scope) : List String → Place → Prop
  | root : Reaches collection scope [] (.root collection)
  | hop {before : List String} {segment : String} {hop : Hop} :
      scope.hops.get? (before ++ [segment]) = some hop →
      Reaches collection scope (before ++ [segment]) hop.place

/-- One join on the way along a path, from a place that is reached to one that is not joined
yet. -/
structure JoinStep (c : Context) (collection : String) (path : List String) (scope : Scope)
    (k : Nat) (before : List String) (segment : String) (place : Place) (target : String)
    (condition : Expr) (scope' : Scope) (k' : Nat) : Prop where
  along : before ++ [segment] <+: path.dropLast
  reached : scope.Reaches collection before place
  fresh : scope.hops.get? (before ++ [segment]) = none
  joined : (c.joinTarget place segment (c.names k)
    (c.link place.collection segment)).Gives (k + 1) (target, condition) k'
  result : scope' = {
    query := scope.query.addJoin ⟨target, some (c.names k)⟩ condition
    hops := scope.hops.insert (before ++ [segment]) ⟨c.names k, target⟩ }

/-- The joins of a scope in another statement. -/
def Scope.onto (scope : Scope) (q : Query) : Scope :=
  { scope with query := { q with joins := scope.query.joins } }

namespace Context

variable {c : Context} {collection : String} {inner : Bool}

theorem join_gives {scope scope' : Scope} {path : List String} {place : Place}
    {segment : String} {link : Link} {hop : Hop} {k k' : Nat}
    (h : (c.join scope path place segment link).Gives k (scope', hop) k') :
    ∃ target condition,
      (c.joinTarget place segment (c.names k) link).Gives (k + 1) (target, condition) k' ∧
      hop = ⟨c.names k, target⟩ ∧
      scope' = {
        query := scope.query.addJoin ⟨target, some (c.names k)⟩ condition
        hops := scope.hops.insert path ⟨c.names k, target⟩ } := by
  simp only [join, Compile.gives_bind, freshAlias_gives, Compile.gives_pure] at h
  obtain ⟨name, k₁, ⟨rfl, rfl⟩, ⟨target, condition⟩, k₂, htarget, hresult, rfl⟩ := h
  cases hresult
  exact ⟨target, condition, htarget, rfl, rfl⟩

/-- What one join keeps, joins along the segments of a path keep. -/
theorem joinFrom_keeps {P : Scope → Nat → Prop} {path : List String}
    (step : ∀ {scope k before segment place target condition scope' k'}, P scope k →
      JoinStep c collection path scope k before segment place target condition scope' k' →
      P scope' k') :
    ∀ {segments before : List String} {place : Place} {scope scope' : Scope} {several : Bool}
      {k k' : Nat}, before ++ segments = path → scope.Reaches collection before place →
      P scope k → (c.joinFrom inner place before scope segments).Gives k (scope', several) k' →
      P scope' k' := by
  intro segments
  induction segments with
  | nil =>
    intro before place scope scope' several k k' _ _ hP h
    obtain ⟨h, rfl⟩ := Compile.gives_pure.mp h
    cases h
    exact hP
  | cons segment rest ih =>
    intro before place scope scope' several k k' hpath hreach hP h
    cases rest with
    | nil =>
      obtain ⟨h, rfl⟩ := Compile.gives_pure.mp h
      cases h
      exact hP
    | cons next rest =>
      have hnext : (before ++ [segment]) ++ next :: rest = path := by
        rw [← hpath, List.append_assoc, List.singleton_append]
      have halong : before ++ [segment] <+: path.dropLast := by
        rw [← hnext, List.dropLast_append_of_ne_nil (List.cons_ne_nil next rest)]
        exact List.prefix_append _ _
      rw [joinFrom] at h
      dsimp only at h
      split at h
      · obtain ⟨h, rfl⟩ := Compile.gives_pure.mp h
        cases h
        exact hP
      · -- the path is joined already
        next hop hfound _ =>
        split at h
        · exact ih hnext (.hop hfound) hP h
        · obtain ⟨h, rfl⟩ := Compile.gives_pure.mp h
          cases h
          exact hP
      · next hfresh _ =>
        split at h
        · simp only [Compile.gives_bind] at h
          obtain ⟨⟨scope₁, hop⟩, k₁, hjoin, h⟩ := h
          obtain ⟨target, condition, htarget, rfl, rfl⟩ := join_gives hjoin
          have hP₁ := step hP ⟨halong, hreach, hfresh, htarget, rfl⟩
          split at h
          · simp only [Compile.gives_bind, Compile.gives_pure] at h
            obtain ⟨⟨scope₂, several₂⟩, k₂, h, hresult, rfl⟩ := h
            cases hresult
            exact ih hnext (.hop (Hops.get?_insert_self _ _ _)) hP₁ h
          · obtain ⟨h, rfl⟩ := Compile.gives_pure.mp h
            cases h
            exact hP₁
        · obtain ⟨h, rfl⟩ := Compile.gives_pure.mp h
          cases h
          exact hP

theorem joinPath_keeps {P : Scope → Nat → Prop} {path : List String}
    (step : ∀ {scope k before segment place target condition scope' k'}, P scope k →
      JoinStep c collection path scope k before segment place target condition scope' k' →
      P scope' k')
    {scope scope' : Scope} {several : Bool} {k k' : Nat} (hP : P scope k)
    (h : (c.joinPath inner collection scope path).Gives k (scope', several) k') :
    P scope' k' :=
  joinFrom_keeps step rfl .root hP h

/-! ## The paths of a filter -/

mutual
/-- The paths of a filter, under a path of parents, that are joined. -/
def filterPaths (c : Context) (collection : String) (parents : List String) :
    Filter → List (List String)
  | ⟨clauses⟩ => c.clausesPaths collection parents clauses

/-- The paths of clauses. -/
def clausesPaths (c : Context) (collection : String) (parents : List String) :
    List Clause → List (List String)
  | [] => []
  | clause :: rest =>
    c.clausePaths collection parents clause ++ c.clausesPaths collection parents rest

/-- The paths of a clause; those of a group that restricts nothing do not count. -/
def clausePaths (c : Context) (collection : String) (parents : List String) :
    Clause → List (List String)
  | .all filters => c.filtersPaths collection parents filters
  | .any filters =>
    if holdsAlways filters then [] else c.filtersPaths collection parents filters
  | .field key condition =>
    if c.startsExistential collection parents key then []
    else c.conditionPaths collection (parents ++ [Text.trim key]) condition

/-- The paths of filters. -/
def filtersPaths (c : Context) (collection : String) (parents : List String) :
    List Filter → List (List String)
  | [] => []
  | f :: rest =>
    c.filterPaths collection parents f ++ c.filtersPaths collection parents rest

/-- The paths of a field and of what is asked of it. -/
def conditionPaths (c : Context) (collection : String) (path : List String) :
    FieldCondition → List (List String)
  | .nested f => c.filterPaths collection path f
  | .compare _ | .quantified _ _ => [path]
end

/-- Joins along paths one after another.  The result tells whether a link to several rows was
joined. -/
def joinPaths (c : Context) (inner : Bool) (collection : String) (scope : Scope) :
    List (List String) → Compile (Scope × Bool)
  | [] => return (scope, false)
  | path :: rest => do
    let (scope, several) ← c.joinPath inner collection scope path
    let (scope, more) ← c.joinPaths inner collection scope rest
    return (scope, several || more)

theorem joinPaths_singleton (scope : Scope) (path : List String) :
    c.joinPaths inner collection scope [path] = c.joinPath inner collection scope path := by
  simp [joinPaths]

theorem joinPaths_append (scope : Scope) (first second : List (List String)) :
    c.joinPaths inner collection scope (first ++ second) = (do
      let (scope, several) ← c.joinPaths inner collection scope first
      let (scope, more) ← c.joinPaths inner collection scope second
      return (scope, several || more)) := by
  induction first generalizing scope with
  | nil => simp [joinPaths]
  | cons path rest ih => simp [joinPaths, ih, Bool.or_assoc]

mutual
/-- The joins of a filter are the joins of its paths. -/
theorem joinFilter_eq (parents : List String) (scope : Scope) (f : Filter) :
    c.joinFilter inner collection parents scope f =
      c.joinPaths inner collection scope (c.filterPaths collection parents f) := by
  obtain ⟨clauses⟩ := f
  rw [joinFilter, filterPaths]
  exact joinClauses_eq parents scope clauses

theorem joinClauses_eq (parents : List String) (scope : Scope) (clauses : List Clause) :
    c.joinClauses inner collection parents scope clauses =
      c.joinPaths inner collection scope (c.clausesPaths collection parents clauses) := by
  cases clauses with
  | nil => rw [joinClauses, clausesPaths, joinPaths]
  | cons clause rest =>
    rw [joinClauses, clausesPaths, joinPaths_append, joinClause_eq parents scope clause]
    refine congrArg _ (funext fun ⟨scope₁, several⟩ => ?_)
    dsimp only
    rw [joinClauses_eq parents scope₁ rest]

theorem joinClause_eq (parents : List String) (scope : Scope) (clause : Clause) :
    c.joinClause inner collection parents scope clause =
      c.joinPaths inner collection scope (c.clausePaths collection parents clause) := by
  cases clause with
  | all filters => rw [joinClause, clausePaths, joinFilters_eq parents scope filters]
  | any filters =>
    rw [joinClause, clausePaths]
    split
    · rw [joinPaths]
    · exact joinFilters_eq parents scope filters
  | field key condition =>
    rw [joinClause, clausePaths]
    split
    · rw [joinPaths]
    · exact joinCondition_eq (parents ++ [Text.trim key]) scope condition

theorem joinFilters_eq (parents : List String) (scope : Scope) (filters : List Filter) :
    c.joinFilters inner collection parents scope filters =
      c.joinPaths inner collection scope (c.filtersPaths collection parents filters) := by
  cases filters with
  | nil => rw [joinFilters, filtersPaths, joinPaths]
  | cons f rest =>
    rw [joinFilters, filtersPaths, joinPaths_append, joinFilter_eq parents scope f]
    refine congrArg _ (funext fun ⟨scope₁, several⟩ => ?_)
    dsimp only
    rw [joinFilters_eq parents scope₁ rest]

theorem joinCondition_eq (path : List String) (scope : Scope) (condition : FieldCondition) :
    c.joinCondition inner collection path scope condition =
      c.joinPaths inner collection scope (c.conditionPaths collection path condition) := by
  cases condition with
  | compare comparisons => rw [joinCondition, conditionPaths, joinPaths_singleton]
  | quantified quantifier f => rw [joinCondition, conditionPaths, joinPaths_singleton]
  | nested f =>
    rw [joinCondition, conditionPaths]
    exact joinFilter_eq path scope f
end

/-! ## Joins in another statement -/

theorem join_onto (q : Query) (scope : Scope) (path : List String) (place : Place)
    (segment : String) (link : Link) :
    c.join (scope.onto q) path place segment link =
      (fun joined => (joined.1.onto q, joined.2)) <$> c.join scope path place segment link := by
  simp only [join, map_bind, map_pure]
  rfl

theorem joinFrom_onto (q : Query) (segments : List String) :
    ∀ (place : Place) (before : List String) (scope : Scope),
      c.joinFrom inner place before (scope.onto q) segments =
        (fun joined => (joined.1.onto q, joined.2)) <$>
          c.joinFrom inner place before scope segments := by
  induction segments with
  | nil =>
    intro place before scope
    simp only [joinFrom, map_pure]
  | cons segment rest ih =>
    intro place before scope
    cases rest with
    | nil => simp only [joinFrom, map_pure]
    | cons next rest =>
      have hsame : (scope.onto q).hops = scope.hops := rfl
      rw [joinFrom, joinFrom, hsame]
      dsimp only
      split
      · rw [map_pure]
      · -- the path is joined already
        split
        · exact ih _ _ _
        · rw [map_pure]
      · split
        · simp only [join_onto, map_bind, bind_map_left]
          refine congrArg _ (funext fun ⟨scope₁, hop⟩ => ?_)
          dsimp only
          split
          · simp only [ih, map_bind, bind_map_left, map_pure]
          · rw [map_pure]
        · rw [map_pure]

theorem joinPaths_onto (q : Query) (paths : List (List String)) : ∀ scope : Scope,
    c.joinPaths inner collection (scope.onto q) paths =
      (fun joined => (joined.1.onto q, joined.2)) <$>
        c.joinPaths inner collection scope paths := by
  induction paths with
  | nil =>
    intro scope
    rw [joinPaths, joinPaths, map_pure]
  | cons path rest ih =>
    intro scope
    simp only [joinPaths, joinPath, joinFrom_onto, ih, map_bind, bind_map_left, map_pure]

/-- Which joins a filter needs does not depend on the statement that they are put in. -/
theorem joinFilter_onto (q : Query) (scope : Scope) (parents : List String) (f : Filter) :
    c.joinFilter inner collection parents (scope.onto q) f =
      (fun joined => (joined.1.onto q, joined.2)) <$>
        c.joinFilter inner collection parents scope f := by
  rw [joinFilter_eq, joinFilter_eq, joinPaths_onto]

/-! ## What joins keep -/

/-- What joining a path keeps, joining paths one after another keeps. -/
theorem joinPaths_keeps {P : Scope → Nat → Prop} {paths : List (List String)}
    (step : ∀ path ∈ paths, ∀ {scope scope' several k k'}, P scope k →
      (c.joinPath inner collection scope path).Gives k (scope', several) k' → P scope' k') :
    ∀ {scope scope' : Scope} {several : Bool} {k k' : Nat}, P scope k →
      (c.joinPaths inner collection scope paths).Gives k (scope', several) k' →
      P scope' k' := by
  induction paths with
  | nil =>
    intro scope scope' several k k' hP h
    obtain ⟨h, rfl⟩ := Compile.gives_pure.mp h
    cases h
    exact hP
  | cons path rest ih =>
    intro scope scope' several k k' hP h
    simp only [joinPaths, Compile.gives_bind, Compile.gives_pure] at h
    obtain ⟨⟨scope₁, several₁⟩, k₁, hfirst, ⟨scope₂, several₂⟩, k₂, hrest, hresult, rfl⟩ := h
    cases hresult
    exact ih (fun p hp => step p (List.mem_cons_of_mem _ hp))
      (step path List.mem_cons_self hP hfirst) hrest

/-- What one join keeps, the joins of a filter keep. -/
theorem joinFilter_keeps {P : Scope → Nat → Prop} {parents : List String} {f : Filter}
    (step : ∀ {path scope k before segment place target condition scope' k'},
      path ∈ c.filterPaths collection parents f → P scope k →
      JoinStep c collection path scope k before segment place target condition scope' k' →
      P scope' k')
    {scope scope' : Scope} {several : Bool} {k k' : Nat} (hP : P scope k)
    (h : (c.joinFilter inner collection parents scope f).Gives k (scope', several) k') :
    P scope' k' := by
  rw [joinFilter_eq] at h
  exact joinPaths_keeps (fun path hpath => joinPath_keeps (step hpath)) hP h

end Context

end JsonSql
