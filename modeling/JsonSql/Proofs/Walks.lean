import JsonSql.Proofs.Joins
import JsonSql.Proofs.Meaning
import JsonSql.Proofs.Paths

set_option autoImplicit false

/-!
# Rows along paths

A path of keys that refer to rows leads from each row of a collection to one row.  The joins of a
plain filter go along such paths, primary keys are unique, and every alias is new; so the joins put
exactly one row beside each row, and the alias of a join stands for the row that its path leads to
(`Scope.Tracks`).
-/

namespace JsonSql

open JsonSql.Sql

variable {E : Engine} {s : Schema} {db : Database E}

/-! ## Walks -/

/-- The row that a key refers to, with its collection. -/
def follow (s : Schema) (db : Database E) (here : String × Row E) (segment : String) :
    Option (String × Row E) :=
  match link s.relations here.1 segment with
  | .manyToOne r => r.related.map fun target => (target, referencedRow s db r target here.2)
  | _ => none

/-- The row that a path of such keys leads to, with its collection. -/
def walk (s : Schema) (db : Database E) (here : String × Row E) (path : List String) :
    Option (String × Row E) :=
  path.foldlM (follow s db) here

theorem walk_append (here : String × Row E) (first second : List String) :
    walk s db here (first ++ second) =
      (walk s db here first).bind fun there => walk s db there second :=
  List.foldlM_append

theorem follow_eq_some {here there : String × Row E} {segment : String}
    (h : follow s db here segment = some there) :
    ∃ r target, link s.relations here.1 segment = .manyToOne r ∧ r.related = some target ∧
      there = (target, referencedRow s db r target here.2) := by
  unfold follow at h
  split at h
  · next r hlink =>
    obtain ⟨target, hrelated, rfl⟩ := Option.map_eq_some_iff.mp h
    exact ⟨r, target, hlink, hrelated, rfl⟩
  · cases h

theorem walk_concat_eq_some {here there : String × Row E} {path : List String}
    {segment : String} (h : walk s db here (path ++ [segment]) = some there) :
    ∃ stop, walk s db here path = some stop ∧ follow s db stop segment = some there := by
  rw [walk_append] at h
  obtain ⟨stop, hstop, h⟩ := Option.bind_eq_some_iff.mp h
  refine ⟨stop, hstop, ?_⟩
  rw [walk, List.foldlM_cons] at h
  simpa using h

/-- A path that leads from every row of a collection to rows of another one. -/
def Leads (s : Schema) (db : Database E) (collection : String) (path : List String)
    (target : String) : Prop :=
  ∀ row, ∃ there, walk s db (collection, row) path = some (target, there)

theorem Leads.concat {collection current target : String} {path : List String} {key : String}
    {r : Relation} (h : Leads s db collection path current)
    (hlink : link s.relations current key = .manyToOne r) (hrelated : r.related = some target) :
    Leads s db collection (path ++ [key]) target := by
  intro row
  obtain ⟨there, hthere⟩ := h row
  refine ⟨referencedRow s db r target there, ?_⟩
  rw [walk_append, hthere, Option.bind_some, walk, List.foldlM_cons, follow]
  simp [hlink, hrelated]

/-! ## Plain filters -/

theorem plainLink?_eq_many {relations : List Relation} {collection key : String} {root : Bool}
    {r : Relation} (h : plainLink? relations collection root key = some (.many r)) :
    root = true ∧ link relations collection key = .oneToMany r := by
  unfold plainLink? at h
  split at h
  · next hlink =>
    cases h
    exact ⟨rfl, hlink⟩
  · cases h
  · split at h
    · obtain ⟨target, -, h⟩ := Option.map_eq_some_iff.mp h
      cases h
    · cases h

theorem plainLink?_eq_one {relations : List Relation} {collection key target : String}
    {root : Bool} {r : Relation}
    (h : plainLink? relations collection root key = some (.one r target)) :
    (root && (link relations collection key).isToMany) = false ∧
      link relations collection (Text.trim key) = .manyToOne r ∧ r.related = some target := by
  refine ⟨?_, ?_⟩
  · cases root with
    | false => rfl
    | true =>
      cases hkey : link relations collection key with
      | oneToMany r | oneToAny r =>
        unfold plainLink? at h
        rw [hkey] at h
        cases h
      | none | manyToOne r | manyToAny r scope => rfl
  · unfold plainLink? at h
    split at h
    · cases h
    · cases h
    · split at h
      · next hlink =>
        obtain ⟨found, hfound, h⟩ := Option.map_eq_some_iff.mp h
        cases h
        exact ⟨hlink, hfound⟩
      · cases h

/-! ### Paths that are joined -/

/-- What a compilation against a schema looks at. -/
def Schema.context (s : Schema) (options : Options) (names : Nat → String) : Context :=
  { provider := s.provider, relations := s.relations, options, names }

variable {options : Options} {names : Nat → String} {collection : String}

@[simp] theorem Schema.context_names : (s.context options names).names = names := rfl

@[simp] theorem Schema.context_options : (s.context options names).options = options := rfl

/-- Whether a key starts an existential condition, by where its parents have led to. -/
theorem startsExistential_eq {parents : List String} {current : String}
    (hparents : parents = [] → current = collection) (key : String) :
    (s.context options names).startsExistential collection parents key =
      (parents.isEmpty && (link s.relations current key).isToMany) := by
  rw [Context.startsExistential, Context.link]
  cases parents with
  | nil =>
    rw [hparents rfl]
    rfl
  | cons segment rest => rfl

theorem Leads.eq_of_nil {current : String} {parents : List String}
    (h : Leads s db collection parents current) (hparents : parents = []) :
    current = collection := by
  obtain ⟨there, hthere⟩ := h (nullRow E)
  rw [hparents] at hthere
  cases hthere
  rfl

mutual
/-- The joined paths of a plain filter lead, up to their last segment, from row to row. -/
theorem leads_of_filterPaths {current : String} (parents : List String) (f : Filter)
    (hparents : Leads s db collection parents current) (hpath : IsPath parents)
    (hplain : f.isPlain s.relations current parents.isEmpty = true) (hkeys : f.IsUnfolded) :
    ∀ path ∈ (s.context options names).filterPaths collection parents f,
      IsPath path ∧ ∃ target, Leads s db collection path.dropLast target := by
  obtain ⟨clauses⟩ := f
  rw [Filter.isPlain] at hplain
  rw [Filter.IsUnfolded] at hkeys
  rw [Context.filterPaths]
  exact leads_of_clausesPaths parents clauses hparents hpath hplain hkeys

theorem leads_of_clausesPaths {current : String} (parents : List String) (clauses : List Clause)
    (hparents : Leads s db collection parents current) (hpath : IsPath parents)
    (hplain : arePlainClauses s.relations current parents.isEmpty clauses = true)
    (hkeys : AreUnfoldedClauses clauses) :
    ∀ path ∈ (s.context options names).clausesPaths collection parents clauses,
      IsPath path ∧ ∃ target, Leads s db collection path.dropLast target := by
  cases clauses with
  | nil =>
    intro path h
    rw [Context.clausesPaths] at h
    cases h
  | cons clause rest =>
    rw [arePlainClauses, Bool.and_eq_true] at hplain
    rw [AreUnfoldedClauses] at hkeys
    intro path h
    rw [Context.clausesPaths] at h
    rcases List.mem_append.mp h with h | h
    · exact leads_of_clausePaths parents clause hparents hpath hplain.1 hkeys.1 path h
    · exact leads_of_clausesPaths parents rest hparents hpath hplain.2 hkeys.2 path h

theorem leads_of_clausePaths {current : String} (parents : List String) (clause : Clause)
    (hparents : Leads s db collection parents current) (hpath : IsPath parents)
    (hplain : clause.isPlain s.relations current parents.isEmpty = true)
    (hkeys : clause.IsUnfolded) :
    ∀ path ∈ (s.context options names).clausePaths collection parents clause,
      IsPath path ∧ ∃ target, Leads s db collection path.dropLast target := by
  cases clause with
  | all filters =>
    rw [Clause.isPlain] at hplain
    rw [Clause.IsUnfolded] at hkeys
    rw [Context.clausePaths]
    exact leads_of_filtersPaths parents filters hparents hpath hplain hkeys
  | any filters =>
    rw [Clause.isPlain, Bool.or_eq_true] at hplain
    rw [Clause.IsUnfolded] at hkeys
    rw [Context.clausePaths]
    split
    · intro path h
      cases h
    · next hrestricts =>
      exact leads_of_filtersPaths parents filters hparents hpath
        (hplain.resolve_left hrestricts) hkeys
  | field key condition =>
    rw [Clause.isPlain] at hplain
    rw [Clause.IsUnfolded] at hkeys
    rw [Context.clausePaths, startsExistential_eq hparents.eq_of_nil]
    split
    · intro path h
      cases h
    · next hstart =>
      exact leads_of_conditionPaths parents key condition hparents hpath hplain hkeys.1 hkeys.2
        (Bool.eq_false_iff.mpr hstart)

theorem leads_of_filtersPaths {current : String} (parents : List String) (filters : List Filter)
    (hparents : Leads s db collection parents current) (hpath : IsPath parents)
    (hplain : arePlain s.relations current parents.isEmpty filters = true)
    (hkeys : AreUnfolded filters) :
    ∀ path ∈ (s.context options names).filtersPaths collection parents filters,
      IsPath path ∧ ∃ target, Leads s db collection path.dropLast target := by
  cases filters with
  | nil =>
    intro path h
    rw [Context.filtersPaths] at h
    cases h
  | cons f rest =>
    rw [arePlain, Bool.and_eq_true] at hplain
    rw [AreUnfolded] at hkeys
    intro path h
    rw [Context.filtersPaths] at h
    rcases List.mem_append.mp h with h | h
    · exact leads_of_filterPaths parents f hparents hpath hplain.1 hkeys.1 path h
    · exact leads_of_filtersPaths parents rest hparents hpath hplain.2 hkeys.2 path h

theorem leads_of_conditionPaths {current : String} (parents : List String) (key : String)
    (condition : FieldCondition) (hparents : Leads s db collection parents current)
    (hpath : IsPath parents)
    (hplain : condition.isPlain s.relations current parents.isEmpty key = true)
    (hkey : IsSegment key) (hkeys : condition.IsUnfolded)
    (hstart : (parents.isEmpty && (link s.relations current key).isToMany) = false) :
    ∀ path ∈ (s.context options names).conditionPaths collection (parents ++ [Text.trim key])
      condition,
      IsPath path ∧ ∃ target, Leads s db collection path.dropLast target := by
  have hnext := hpath.append hkey.trim
  have hlast : ∃ target, Leads s db collection (parents ++ [Text.trim key]).dropLast target := by
    rw [List.dropLast_concat]
    exact ⟨current, hparents⟩
  cases condition with
  | compare comparisons =>
    intro path h
    rw [Context.conditionPaths, List.mem_singleton] at h
    rw [h]
    exact ⟨hnext, hlast⟩
  | quantified quantifier f =>
    intro path h
    rw [Context.conditionPaths, List.mem_singleton] at h
    rw [h]
    exact ⟨hnext, hlast⟩
  | nested f =>
    rw [Context.conditionPaths]
    rw [FieldCondition.isPlain] at hplain
    rw [FieldCondition.IsUnfolded] at hkeys
    split at hplain
    · next r target hlink =>
      obtain ⟨-, hone, hrelated⟩ := plainLink?_eq_one hlink
      refine leads_of_filterPaths _ f (hparents.concat hone hrelated) hnext ?_ hkeys
      have hbelow : (parents ++ [Text.trim key]).isEmpty = false := by simp
      rw [hbelow]
      exact hplain
    · next r hlink =>
      -- rows that refer back are not joined here
      obtain ⟨hroot, hmany⟩ := plainLink?_eq_many hlink
      rw [hroot, hmany] at hstart
      cases hstart
    · cases hplain
end

end JsonSql
