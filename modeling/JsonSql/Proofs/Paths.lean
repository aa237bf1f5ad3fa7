import JsonSql.Request.Unfold
import JsonSql.Statement.Context

set_option autoImplicit false

/-!
# Paths of segments

The segments of a path have no dots, so a path is read back from its key and no two paths share
one.  The keys of an unfolded filter are segments.
-/

namespace JsonSql

namespace Text

theorem splitChars_append {sep : Char} {cs : List Char} (h : sep ∉ cs) (rest : List Char) :
    splitChars sep (cs ++ sep :: rest) = cs :: splitChars sep rest := by
  induction cs with
  | nil => simp [splitChars]
  | cons c cs ih =>
    rw [List.mem_cons, not_or] at h
    simp [splitChars, ih h.2, Ne.symm h.1]

/-- Pieces without the separator are read back. -/
theorem splitChars_joinChars {sep : Char} {pieces : List (List Char)} (hne : pieces ≠ [])
    (h : ∀ piece ∈ pieces, sep ∉ piece) : splitChars sep (joinChars sep pieces) = pieces := by
  induction pieces with
  | nil => exact absurd rfl hne
  | cons piece rest ih =>
    have hpiece := h piece List.mem_cons_self
    cases rest with
    | nil => exact splitChars_of_notMem hpiece
    | cons next more =>
      have hrest := ih (List.cons_ne_nil next more) fun p hp => h p (List.mem_cons_of_mem _ hp)
      rw [joinChars, splitChars_append hpiece, hrest]
      exact List.cons_ne_nil next more

/-- No piece has the separator in it. -/
theorem notMem_of_mem_splitChars {sep : Char} {cs piece : List Char}
    (h : piece ∈ splitChars sep cs) : sep ∉ piece := by
  induction cs generalizing piece with
  | nil =>
    rw [splitChars, List.mem_singleton] at h
    rw [h]
    exact List.not_mem_nil
  | cons c cs ih =>
    rw [splitChars] at h
    split at h
    · rcases List.mem_cons.mp h with rfl | h
      · exact List.not_mem_nil
      · exact ih h
    · next hother =>
      cases hpieces : splitChars sep cs with
      | nil => exact absurd hpieces (splitChars_ne_nil sep cs)
      | cons first rest =>
        rw [hpieces] at h ih
        rcases List.mem_cons.mp h with rfl | h
        · rw [List.mem_cons, not_or]
          exact ⟨Ne.symm hother, ih List.mem_cons_self⟩
        · exact ih (List.mem_cons_of_mem _ h)

/-- Trimming adds nothing to a text. -/
theorem mem_of_mem_trim {c : Char} {s : String} (h : c ∈ (trim s).toList) : c ∈ s.toList := by
  simp only [trim, String.toList_ofList, trimChars, List.mem_reverse] at h
  have hback := (List.dropWhile_suffix isBlank).mem h
  exact (List.dropWhile_suffix isBlank).mem (List.mem_reverse.mp hback)

/-- Pieces without the separator are the split of their join. -/
theorem split_join {sep : Char} {pieces : List String} (hne : pieces ≠ [])
    (h : ∀ piece ∈ pieces, sep ∉ piece.toList) : split sep (join sep pieces) = pieces := by
  rw [split, join, String.toList_ofList, splitChars_joinChars (mt List.map_eq_nil_iff.mp hne)]
  · simp
  · intro piece hpiece
    obtain ⟨text, htext, rfl⟩ := List.mem_map.mp hpiece
    exact h text htext

end Text

/-! ## Keys of paths -/

/-- A segment of a path. -/
def IsSegment (s : String) : Prop := '.' ∉ s.toList

/-- A list of segments. -/
def IsPath (path : List String) : Prop := ∀ segment ∈ path, IsSegment segment

theorem IsSegment.trim {s : String} (h : IsSegment s) : IsSegment (Text.trim s) := by
  intro hdot
  exact h (Text.mem_of_mem_trim hdot)

theorem isPath_nil : IsPath [] :=
  fun _ hsegment => absurd hsegment List.not_mem_nil

theorem IsPath.append {path : List String} {segment : String} (h : IsPath path)
    (hsegment : IsSegment segment) : IsPath (path ++ [segment]) := by
  intro s hs
  rcases List.mem_append.mp hs with hs | hs
  · exact h s hs
  · rw [List.mem_singleton.mp hs]
    exact hsegment

/-- No two paths share a key. -/
theorem Hops.key_injective {path other : List String} (hpath : IsPath path)
    (hother : IsPath other) (hne : path ≠ []) (hne' : other ≠ [])
    (h : Hops.key path = Hops.key other) : path = other := by
  rw [← Text.split_join hne hpath, ← Text.split_join hne' hother]
  exact congrArg (Text.split '.') h

theorem isPath_split (key : String) : IsPath (Text.split '.' key) := by
  intro segment hsegment
  obtain ⟨piece, hpiece, rfl⟩ := List.mem_map.mp hsegment
  rw [IsSegment, String.toList_ofList]
  exact Text.notMem_of_mem_splitChars hpiece

/-! ## Unfolded filters -/

mutual
/-- A filter whose keys are segments. -/
def Filter.IsUnfolded : Filter → Prop
  | ⟨clauses⟩ => AreUnfoldedClauses clauses

/-- Clauses whose keys are segments. -/
def AreUnfoldedClauses : List Clause → Prop
  | [] => True
  | clause :: rest => clause.IsUnfolded ∧ AreUnfoldedClauses rest

/-- A clause whose keys are segments. -/
def Clause.IsUnfolded : Clause → Prop
  | .all filters | .any filters => AreUnfolded filters
  | .field key condition => IsSegment key ∧ condition.IsUnfolded

/-- Filters whose keys are segments. -/
def AreUnfolded : List Filter → Prop
  | [] => True
  | f :: rest => f.IsUnfolded ∧ AreUnfolded rest

/-- The keys of what is asked of a field are segments. -/
def FieldCondition.IsUnfolded : FieldCondition → Prop
  | .compare _ => True
  | .nested f | .quantified _ f => f.IsUnfolded
end

theorem isUnfolded_along {segments : List String} {condition : FieldCondition}
    (hsegments : IsPath segments) (h : condition.IsUnfolded) :
    (Clause.along segments condition).IsUnfolded := by
  induction segments with
  | nil =>
    rw [Clause.along, Clause.IsUnfolded]
    exact ⟨List.not_mem_nil, h⟩
  | cons segment rest ih =>
    have hsegment := hsegments segment List.mem_cons_self
    cases rest with
    | nil =>
      rw [Clause.along, Clause.IsUnfolded]
      exact ⟨hsegment, h⟩
    | cons next more =>
      have hrest := ih fun s hs => hsegments s (List.mem_cons_of_mem _ hs)
      rw [Clause.along, Clause.IsUnfolded, FieldCondition.IsUnfolded, Filter.of,
        Filter.IsUnfolded, AreUnfoldedClauses, AreUnfoldedClauses]
      exact ⟨hsegment.trim, hrest, trivial⟩
      all_goals exact List.cons_ne_nil next more

mutual
/-- The keys of an unfolded filter are segments. -/
theorem isUnfolded_unfolded (f : Filter) : f.unfolded.IsUnfolded := by
  obtain ⟨clauses⟩ := f
  rw [Filter.unfolded, Filter.IsUnfolded]
  exact areUnfoldedClauses_unfolded clauses

theorem areUnfoldedClauses_unfolded (clauses : List Clause) :
    AreUnfoldedClauses (Filter.unfoldedClauses clauses) := by
  cases clauses with
  | nil => exact trivial
  | cons clause rest =>
    rw [Filter.unfoldedClauses, AreUnfoldedClauses]
    exact ⟨clause_isUnfolded_unfolded clause, areUnfoldedClauses_unfolded rest⟩

theorem clause_isUnfolded_unfolded (clause : Clause) : clause.unfolded.IsUnfolded := by
  cases clause with
  | all filters =>
    rw [Clause.unfolded, Clause.IsUnfolded]
    exact areUnfolded_unfolded filters
  | any filters =>
    rw [Clause.unfolded, Clause.IsUnfolded]
    exact areUnfolded_unfolded filters
  | field key condition =>
    rw [Clause.unfolded]
    exact isUnfolded_along (isPath_split key) (condition_isUnfolded_unfolded condition)

theorem areUnfolded_unfolded (filters : List Filter) :
    AreUnfolded (Filter.unfoldedAll filters) := by
  cases filters with
  | nil => exact trivial
  | cons f rest =>
    rw [Filter.unfoldedAll, AreUnfolded]
    exact ⟨isUnfolded_unfolded f, areUnfolded_unfolded rest⟩

theorem condition_isUnfolded_unfolded (condition : FieldCondition) :
    condition.unfolded.IsUnfolded := by
  cases condition with
  | compare comparisons => exact trivial
  | nested f =>
    rw [FieldCondition.unfolded, FieldCondition.IsUnfolded]
    exact isUnfolded_unfolded f
  | quantified quantifier f =>
    rw [FieldCondition.unfolded, FieldCondition.IsUnfolded]
    exact isUnfolded_unfolded f
end

end JsonSql
