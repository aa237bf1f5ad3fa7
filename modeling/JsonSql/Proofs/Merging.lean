import JsonSql.Proofs.ShorterTexts
import JsonSql.Proofs.WrittenJson

set_option autoImplicit false

/-!
# Repeated keys

Merging repeated keys leaves no key repeated, and where none is repeated it changes nothing.  So a
value is merged once and for all (`Json.merged_merged`), and it makes no difference whether its
numbers are read again before or after (`Json.merged_reread`).
-/

namespace JsonSql

/-! ## Members -/

section

variable {α β : Type}

theorem putMember_map (f : α → β) (key : String) (value : α) (members : List (String × α)) :
    putMember key (f value) (members.map (Prod.map id f)) =
      (putMember key value members).map (Prod.map id f) := by
  induction members with
  | nil => rfl
  | cons member members ih =>
    obtain ⟨k, v⟩ := member
    rw [List.map_cons, Prod.map_apply, id_eq, putMember, putMember]
    split
    · rfl
    · rw [ih]
      rfl

/-- Merging does not look at values. -/
theorem mergeMembers_map (f : α → β) (members : List (String × α)) :
    mergeMembers (members.map (Prod.map id f)) = (mergeMembers members).map (Prod.map id f) := by
  have hfold (kept : List (String × α)) :
      (members.map (Prod.map id f)).foldl (fun kept member => putMember member.1 member.2 kept)
          (kept.map (Prod.map id f)) =
        (members.foldl (fun kept member => putMember member.1 member.2 kept) kept).map
          (Prod.map id f) := by
    induction members generalizing kept with
    | nil => rfl
    | cons member members ih =>
      rw [List.map_cons, List.foldl_cons, List.foldl_cons, ← ih]
      exact congrArg (fun kept => List.foldl _ kept _) (putMember_map f member.1 member.2 kept)
  exact hfold []

theorem putMember_of_notMem {key : String} {value : α} {members : List (String × α)}
    (h : key ∉ members.map Prod.fst) : putMember key value members = members ++ [(key, value)] := by
  induction members with
  | nil => rfl
  | cons member members ih =>
    obtain ⟨k, v⟩ := member
    rw [List.map_cons, List.mem_cons, not_or] at h
    rw [putMember, if_neg (Ne.symm h.1), ih h.2, List.cons_append]

/-- Where no key is repeated nothing is merged. -/
theorem mergeMembers_of_nodup {members : List (String × α)}
    (h : (members.map Prod.fst).Nodup) : mergeMembers members = members := by
  have hfold (kept : List (String × α)) (hkept : ((kept ++ members).map Prod.fst).Nodup) :
      members.foldl (fun kept member => putMember member.1 member.2 kept) kept =
        kept ++ members := by
    clear h
    induction members generalizing kept with
    | nil => exact (List.append_nil kept).symm
    | cons member members ih =>
      have hnew : member.1 ∉ kept.map Prod.fst := by
        rw [List.map_append, List.map_cons, List.nodup_append] at hkept
        exact fun hmem => hkept.2.2 _ hmem _ List.mem_cons_self rfl
      rw [List.append_cons] at hkept ⊢
      rw [List.foldl_cons, putMember_of_notMem hnew]
      exact ih _ hkept
  exact hfold [] h

theorem keys_putMember (key : String) (value : α) (members : List (String × α)) :
    (putMember key value members).map Prod.fst =
      if key ∈ members.map Prod.fst then members.map Prod.fst
      else members.map Prod.fst ++ [key] := by
  induction members with
  | nil => rfl
  | cons member members ih =>
    obtain ⟨k, v⟩ := member
    rw [putMember]
    by_cases hk : k = key
    · rw [if_pos hk, List.map_cons, List.map_cons, if_pos (by rw [hk]; exact List.mem_cons_self)]
    · rw [if_neg hk, List.map_cons, List.map_cons, ih]
      have hiff : key ∈ k :: members.map Prod.fst ↔ key ∈ members.map Prod.fst := by
        rw [List.mem_cons, or_iff_right (Ne.symm hk)]
      simp only [hiff]
      split <;> rfl

/-- No key is repeated after merging. -/
theorem nodup_mergeMembers (members : List (String × α)) :
    ((mergeMembers members).map Prod.fst).Nodup := by
  have hfold (kept : List (String × α)) (h : (kept.map Prod.fst).Nodup) :
      ((members.foldl (fun kept member => putMember member.1 member.2 kept) kept).map
        Prod.fst).Nodup := by
    induction members generalizing kept with
    | nil => exact h
    | cons member members ih =>
      rw [List.foldl_cons]
      refine ih _ ?_
      rw [keys_putMember]
      split
      · exact h
      · next hnew =>
        exact h.append (List.nodup_singleton _) (by simpa using hnew)
  exact hfold [] List.nodup_nil

theorem mergeMembers_mergeMembers (members : List (String × α)) :
    mergeMembers (mergeMembers members) = mergeMembers members :=
  mergeMembers_of_nodup (nodup_mergeMembers members)

end

/-! ## Values -/

namespace Json

theorem mergedMembers_eq_map (members : List (String × Json)) :
    mergedMembers members = members.map (Prod.map id merged) := by
  induction members with
  | nil => rfl
  | cons member members ih =>
    rw [mergedMembers, ih]
    rfl

theorem rereadMembers_eq_map (members : List (String × Json)) :
    rereadMembers members = members.map (Prod.map id reread) := by
  induction members with
  | nil => rfl
  | cons member members ih =>
    rw [rereadMembers, ih]
    rfl

mutual
/-- A value is merged once and for all. -/
theorem merged_merged : ∀ v : Json, v.merged.merged = v.merged
  | .null | .bool _ | .number _ | .string _ => rfl
  | .array items => by rw [merged, merged, mergedItems_mergedItems items]
  | .object members => by
    rw [merged, merged, mergedMembers_eq_map (mergeMembers _), ← mergeMembers_map,
      ← mergedMembers_eq_map, mergedMembers_mergedMembers members, mergeMembers_mergeMembers]

theorem mergedItems_mergedItems : ∀ items : List Json,
    mergedItems (mergedItems items) = mergedItems items
  | [] => rfl
  | item :: items => by
    rw [mergedItems, mergedItems, merged_merged item, mergedItems_mergedItems items]

theorem mergedMembers_mergedMembers : ∀ members : List (String × Json),
    mergedMembers (mergedMembers members) = mergedMembers members
  | [] => rfl
  | (key, value) :: members => by
    rw [mergedMembers, mergedMembers, merged_merged value, mergedMembers_mergedMembers members]
end

mutual
/-- Numbers are read again the same before keys are merged and after. -/
theorem merged_reread : ∀ v : Json, v.reread.merged = v.merged.reread
  | .null | .bool _ | .number _ | .string _ => rfl
  | .array items => by rw [reread, merged, merged, reread, mergedItems_rereadItems items]
  | .object members => by
    rw [reread, merged, merged, reread, mergedMembers_rereadMembers members,
      rereadMembers_eq_map, rereadMembers_eq_map, mergeMembers_map]

theorem mergedItems_rereadItems : ∀ items : List Json,
    mergedItems (rereadItems items) = rereadItems (mergedItems items)
  | [] => rfl
  | item :: items => by
    rw [rereadItems, mergedItems, mergedItems, rereadItems, merged_reread item,
      mergedItems_rereadItems items]

theorem mergedMembers_rereadMembers : ∀ members : List (String × Json),
    mergedMembers (rereadMembers members) = rereadMembers (mergedMembers members)
  | [] => rfl
  | (key, value) :: members => by
    rw [rereadMembers, mergedMembers, mergedMembers, rereadMembers, merged_reread value,
      mergedMembers_rereadMembers members]
end

/-- What is merged comes from JSON text if the value does. -/
theorem Kept.merged {room : Nat} {v : Json} (h : v.Kept room) : v.merged.Kept room := by
  induction h with
  | null => exact .null
  | bool => exact .bool
  | number hn => exact .number hn
  | string => exact .string
  | array _ ih =>
    refine .array fun item hitem => ?_
    obtain ⟨found, hmem, rfl⟩ := exists_of_mem_mergedItems hitem
    exact ih found hmem
  | object _ ih =>
    refine .object fun key value hmember => ?_
    obtain ⟨found, hmem, rfl⟩ := exists_of_mem_mergedMembers (mem_of_mem_mergeMembers hmember)
    exact ih key found hmem

end Json

end JsonSql
