import JsonSql.Proofs.Provenance

set_option autoImplicit false

/-!
# Segments of a request

Every segment that a request names, in its filter at any depth, its ordering, its groups and its
aggregations, and the keys that these segments follow back.  What the compilation walks and asks has
no other segments (`Context.segments_of_mem_leaves`).
-/

namespace JsonSql

mutual
/-- The segments of a filter with one segment in each key, without blanks around them. -/
def Filter.segments : Filter → List String
  | ⟨clauses⟩ => clausesSegments clauses

/-- The segments of clauses. -/
def clausesSegments : List Clause → List String
  | [] => []
  | clause :: rest => clause.segments ++ clausesSegments rest

/-- The segments of a clause. -/
def Clause.segments : Clause → List String
  | .all filters | .any filters => filtersSegments filters
  | .field key condition => Text.trim key :: condition.segments

/-- The segments of filters. -/
def filtersSegments : List Filter → List String
  | [] => []
  | f :: rest => f.segments ++ filtersSegments rest

/-- The segments of what is asked of a field. -/
def FieldCondition.segments : FieldCondition → List String
  | .compare _ => []
  | .quantified _ f | .nested f => f.segments
end

/-! ## Keys that segments follow back -/

/-- The keys that segments follow back, also in the parentheses of functions. -/
def followedIn (segments : List String) : List FollowedKey :=
  segments.filterMap fun segment => followedKey? (splitFunction segment).2

/-- Whether some collection has a field of a name. -/
def Schema.hasField (s : Schema) (name : String) : Bool :=
  s.collections.any fun c => (c.field? name).isSome

/-- The keys that segments follow back in the parentheses of functions of fields.  A function needs
the field in its parentheses to be declared. -/
def followedInFunctions (s : Schema) (segments : List String) : List FollowedKey :=
  followedIn (segments.filter fun segment =>
    (splitFunction segment).1.isSome && s.hasField (splitFunction segment).2)

section

variable {s : Schema} {segments : List String} {segment : String} {key : FollowedKey}

theorem Schema.hasField_of_field? {collection name : String} {f : Field}
    (h : s.field? collection name = some f) : s.hasField name := by
  obtain ⟨c, hc, hf⟩ := Option.bind_eq_some_iff.mp h
  exact List.any_eq_true.mpr ⟨c, List.mem_of_find?_eq_some hc, by rw [hf]; rfl⟩

/-- The key that a whole segment follows back. -/
theorem mem_followedIn (hsegment : segment ∈ segments) (h : followedKey? segment = some key) :
    key ∈ followedIn segments := by
  refine List.mem_filterMap.mpr ⟨segment, hsegment, ?_⟩
  rw [splitFunction_of_followedKey? h]
  exact h

/-- The key that is followed back in the parentheses of a function. -/
theorem mem_followedInFunctions {function field collection : String} {f : Field}
    (hsegment : segment ∈ segments) (hfunction : splitFunction segment = (some function, field))
    (hf : s.field? collection field = some f) (h : followedKey? field = some key) :
    key ∈ followedInFunctions s segments := by
  refine List.mem_filterMap.mpr ⟨segment, List.mem_filter.mpr ⟨hsegment, ?_⟩, ?_⟩
  · rw [hfunction]
    exact Schema.hasField_of_field? hf
  · rw [hfunction]
    exact h

theorem followedInFunctions_subset : followedInFunctions s segments ⊆ followedIn segments :=
  List.filterMap_subset _ (List.filter_subset_self _)

end

namespace Request

/-- The paths of the ordering, the groups and the aggregations. -/
def fieldPaths (r : Request) : List (List String) :=
  r.sort.map sortPath ++ r.group.map fieldPath ++ (r.aggregate.flatMap Prod.snd).map fieldPath

/-- The segments of a request. -/
def segments (r : Request) : List String :=
  r.fieldPaths.flatten ++ r.filter.toList.flatMap fun f => f.unfolded.segments

/-- The keys that the segments of a request follow back. -/
def followedKeys (r : Request) : List FollowedKey := followedIn r.segments

/-- The keys that are followed back where no column is resolved beyond them: on the paths of
aggregations that count whole rows, and in the parentheses of functions of fields. -/
def countedKeys (s : Schema) (r : Request) : List FollowedKey :=
  followedInFunctions s r.segments ++ r.countedPaths.flatten.filterMap followedKey?

theorem mem_fieldPaths_of_mem_countedPaths {r : Request} {path : List String}
    (h : path ∈ r.countedPaths) : path ∈ r.fieldPaths := by
  refine List.mem_append_right _ ?_
  obtain ⟨field, hfield, rfl⟩ := List.mem_map.mp h
  obtain ⟨entry, hentry, hfield⟩ := List.mem_flatMap.mp hfield
  refine List.mem_map_of_mem (List.mem_flatMap.mpr ⟨entry, ?_, hfield⟩)
  exact (List.mem_filter.mp hentry).1

/-- Keys that are followed back with no column beyond them are among those followed back. -/
theorem countedKeys_subset {s : Schema} {r : Request} : r.countedKeys s ⊆ r.followedKeys := by
  intro key hkey
  rcases List.mem_append.mp hkey with hkey | hkey
  · exact followedInFunctions_subset hkey
  · obtain ⟨segment, hsegment, hkey⟩ := List.mem_filterMap.mp hkey
    obtain ⟨path, hpath, hsegment⟩ := List.mem_flatten.mp hsegment
    refine mem_followedIn (List.mem_append_left _ ?_) hkey
    exact List.mem_flatten.mpr ⟨path, mem_fieldPaths_of_mem_countedPaths hpath, hsegment⟩

end Request

/-! ## Segments without dots -/

mutual
/-- The segments of an unfolded filter have no dots. -/
theorem Filter.IsUnfolded.isPath_segments {f : Filter} (h : f.IsUnfolded) : IsPath f.segments := by
  obtain ⟨clauses⟩ := f
  rw [Filter.IsUnfolded] at h
  rw [Filter.segments]
  exact isPath_clausesSegments h

theorem isPath_clausesSegments {clauses : List Clause} (h : AreUnfoldedClauses clauses) :
    IsPath (clausesSegments clauses) := by
  cases clauses with
  | nil => exact isPath_nil
  | cons clause rest =>
    rw [AreUnfoldedClauses] at h
    rw [clausesSegments]
    exact List.forall_mem_append.mpr ⟨h.1.isPath_segments, isPath_clausesSegments h.2⟩

theorem Clause.IsUnfolded.isPath_segments {clause : Clause} (h : clause.IsUnfolded) :
    IsPath clause.segments := by
  cases clause with
  | all filters | any filters =>
    rw [Clause.IsUnfolded] at h
    rw [Clause.segments]
    exact isPath_filtersSegments h
  | field key condition =>
    rw [Clause.IsUnfolded] at h
    rw [Clause.segments]
    exact List.forall_mem_cons.mpr ⟨h.1.trim, h.2.isPath_segments⟩

theorem isPath_filtersSegments {filters : List Filter} (h : AreUnfolded filters) :
    IsPath (filtersSegments filters) := by
  cases filters with
  | nil => exact isPath_nil
  | cons f rest =>
    rw [AreUnfolded] at h
    rw [filtersSegments]
    exact List.forall_mem_append.mpr ⟨h.1.isPath_segments, isPath_filtersSegments h.2⟩

theorem FieldCondition.IsUnfolded.isPath_segments {condition : FieldCondition}
    (h : condition.IsUnfolded) : IsPath condition.segments := by
  cases condition with
  | compare comparisons => exact isPath_nil
  | nested f | quantified quantifier f =>
    rw [FieldCondition.IsUnfolded] at h
    rw [FieldCondition.segments]
    exact h.isPath_segments
end

/-- The segments of a request have no dots. -/
theorem Request.isPath_segments (r : Request) : IsPath r.segments := by
  intro segment hsegment
  rcases List.mem_append.mp hsegment with hsegment | hsegment
  · obtain ⟨path, hpath, hsegment⟩ := List.mem_flatten.mp hsegment
    obtain ⟨key, rfl⟩ : ∃ key, fieldPath key = path := by
      simp only [Request.fieldPaths, List.mem_append, List.mem_map] at hpath
      rcases hpath with (⟨entry, -, rfl⟩ | ⟨key, -, rfl⟩) | ⟨key, -, rfl⟩
      · exact ⟨_, rfl⟩
      · exact ⟨key, rfl⟩
      · exact ⟨key, rfl⟩
    exact isPath_fieldPath key segment hsegment
  · obtain ⟨f, -, hsegment⟩ := List.mem_flatMap.mp hsegment
    exact (isUnfolded_unfolded f).isPath_segments segment hsegment

/-! ## Leaves -/

/-- The segments of a leaf are among some. -/
def Leaf.SegmentsIn (segments : List String) : Leaf → Prop
  | compared parents key _ => parents ++ [Text.trim key] ⊆ segments
  | related parents key _ f => parents ++ [Text.trim key] ⊆ segments ∧ f.segments ⊆ segments

namespace Context

variable {c : Context} {collection : String} {segments : List String}

mutual
/-- The leaves of a filter have the segments of the filter, below those of the parents. -/
theorem segments_of_mem_leaves {parents : List String} (f : Filter) (hparents : parents ⊆ segments)
    (hf : f.segments ⊆ segments) :
    ∀ leaf ∈ c.leaves collection parents f, leaf.SegmentsIn segments := by
  obtain ⟨clauses⟩ := f
  rw [Filter.segments] at hf
  rw [leaves]
  exact segments_of_mem_clausesLeaves clauses hparents hf

theorem segments_of_mem_clausesLeaves {parents : List String} (clauses : List Clause)
    (hparents : parents ⊆ segments) (hclauses : clausesSegments clauses ⊆ segments) :
    ∀ leaf ∈ c.clausesLeaves collection parents clauses, leaf.SegmentsIn segments := by
  intro leaf h
  cases clauses with
  | nil =>
    rw [clausesLeaves] at h
    cases h
  | cons clause rest =>
    rw [clausesSegments, List.append_subset] at hclauses
    rw [clausesLeaves] at h
    rcases List.mem_append.mp h with h | h
    · exact segments_of_mem_clauseLeaves clause hparents hclauses.1 leaf h
    · exact segments_of_mem_clausesLeaves rest hparents hclauses.2 leaf h

theorem segments_of_mem_clauseLeaves {parents : List String} (clause : Clause)
    (hparents : parents ⊆ segments) (hclause : clause.segments ⊆ segments) :
    ∀ leaf ∈ c.clauseLeaves collection parents clause, leaf.SegmentsIn segments := by
  cases clause with
  | all filters =>
    rw [Clause.segments] at hclause
    rw [clauseLeaves]
    exact segments_of_mem_filtersLeaves filters hparents hclause
  | any filters =>
    rw [Clause.segments] at hclause
    rw [clauseLeaves]
    split
    · intro leaf h
      cases h
    · exact segments_of_mem_filtersLeaves filters hparents hclause
  | field key condition =>
    rw [Clause.segments, List.cons_subset] at hclause
    rw [clauseLeaves]
    refine segments_of_mem_conditionLeaves condition ?_ hclause.2
    exact List.append_subset.mpr ⟨hparents, by simpa using hclause.1⟩

theorem segments_of_mem_filtersLeaves {parents : List String} (filters : List Filter)
    (hparents : parents ⊆ segments) (hfilters : filtersSegments filters ⊆ segments) :
    ∀ leaf ∈ c.filtersLeaves collection parents filters, leaf.SegmentsIn segments := by
  intro leaf h
  cases filters with
  | nil =>
    rw [filtersLeaves] at h
    cases h
  | cons f rest =>
    rw [filtersSegments, List.append_subset] at hfilters
    rw [filtersLeaves] at h
    rcases List.mem_append.mp h with h | h
    · exact segments_of_mem_leaves f hparents hfilters.1 leaf h
    · exact segments_of_mem_filtersLeaves rest hparents hfilters.2 leaf h

theorem segments_of_mem_conditionLeaves {parents : List String} {key : String}
    (condition : FieldCondition) (hpath : parents ++ [Text.trim key] ⊆ segments)
    (hcondition : condition.segments ⊆ segments) :
    ∀ leaf ∈ c.conditionLeaves collection parents key condition, leaf.SegmentsIn segments := by
  cases condition with
  | compare comparisons =>
    intro leaf h
    rw [conditionLeaves, List.mem_singleton] at h
    rw [h]
    exact hpath
  | nested f =>
    rw [FieldCondition.segments] at hcondition
    rw [conditionLeaves]
    split
    · intro leaf h
      rw [List.mem_singleton.mp h]
      exact ⟨hpath, hcondition⟩
    · exact segments_of_mem_leaves f hpath hcondition
  | quantified quantifier f =>
    intro leaf h
    rw [FieldCondition.segments] at hcondition
    rw [conditionLeaves, List.mem_singleton] at h
    rw [h]
    exact ⟨hpath, hcondition⟩
end

/-- The paths of a filter have the segments of the filter. -/
theorem segments_of_mem_filterPaths {f : Filter} (hf : f.segments ⊆ segments) :
    ∀ path ∈ c.filterPaths collection [] f, path ⊆ segments := by
  intro path hpath
  rw [filterPaths_eq, List.mem_flatMap] at hpath
  obtain ⟨leaf, hleaf, hpath⟩ := hpath
  have hin := segments_of_mem_leaves f (List.nil_subset segments) hf leaf hleaf
  have hown {parents : List String} {key : String} (hkey : parents ++ [Text.trim key] ⊆ segments)
      (hpath : path ∈ if c.startsExistential collection parents key then []
        else [parents ++ [Text.trim key]]) : path ⊆ segments := by
    split at hpath
    · cases hpath
    · rw [List.mem_singleton.mp hpath]
      exact hkey
  cases leaf with
  | compared parents key comparisons => exact hown hin hpath
  | related parents key quantifier g => exact hown hin.1 hpath

/-- The leaves of the filter of a request have the segments of the request. -/
theorem segments_of_mem_requestLeaves {r : Request} :
    ∀ leaf ∈ c.requestLeaves collection r, leaf.SegmentsIn r.segments := by
  intro leaf hleaf
  obtain ⟨f, hf, hleaf⟩ := List.mem_flatMap.mp hleaf
  refine segments_of_mem_leaves f.unfolded (List.nil_subset _) (fun segment hsegment => ?_) leaf
    hleaf
  exact List.mem_append_right _ (List.mem_flatMap.mpr ⟨f, hf, hsegment⟩)

/-- The paths that a request walks have the segments of the request. -/
theorem segments_of_mem_walkedPaths {r : Request} :
    ∀ path ∈ c.walkedPaths collection r, path ⊆ r.segments := by
  intro path hpath
  have hfield (hmem : path ∈ r.fieldPaths) : path ⊆ r.segments := fun segment hsegment =>
    List.mem_append_left _ (List.mem_flatten.mpr ⟨path, hmem, hsegment⟩)
  rcases List.mem_append.mp hpath with hpath | hpath
  · rcases List.mem_append.mp hpath with hpath | hpath
    · exact hfield (List.mem_append_left _ hpath)
    · obtain ⟨f, hf, hpath⟩ := List.mem_flatMap.mp hpath
      refine segments_of_mem_filterPaths (fun segment hsegment => ?_) path hpath
      exact List.mem_append_right _ (List.mem_flatMap.mpr ⟨f, hf, hsegment⟩)
  · exact hfield (List.mem_append_right _ hpath)

end Context

end JsonSql
