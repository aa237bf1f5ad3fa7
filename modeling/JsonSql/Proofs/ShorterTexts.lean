import JsonSql.Json.Reader

set_option autoImplicit false

/-!
# Texts in JSON texts

A text that stands in a JSON value is shorter than the text that the value is read from, which has
quotes around it (`Json.length_lt_of_read?`).  So texts that hold JSON cannot go on for ever, one in
the other.
-/

namespace JsonSql

/-! ## Texts in values -/

/-- A text stands in a value. -/
inductive Json.HasText (text : String) : Json → Prop
  | string : HasText text (.string text)
  | item {items : List Json} {item : Json} : item ∈ items → HasText text item →
      HasText text (.array items)
  | member {members : List (String × Json)} {key : String} {value : Json} :
      (key, value) ∈ members → HasText text value → HasText text (.object members)

/-- A member of an object without repeated keys is one of those that it is made of. -/
theorem mem_of_mem_putMember {α : Type} {key : String} {value : α} {member : String × α} :
    ∀ {members : List (String × α)}, member ∈ putMember key value members →
      member = (key, value) ∨ member ∈ members
  | [], h => .inl (List.mem_singleton.mp h)
  | (k, v) :: rest, h => by
    rw [putMember] at h
    split at h
    · next hsame =>
      subst hsame
      exact (List.mem_cons.mp h).imp id (List.mem_cons_of_mem _)
    · rcases List.mem_cons.mp h with rfl | hrest
      · exact .inr List.mem_cons_self
      · exact (mem_of_mem_putMember hrest).imp id (List.mem_cons_of_mem _)

theorem mem_of_mem_mergeMembers {α : Type} {member : String × α} {members : List (String × α)}
    (h : member ∈ mergeMembers members) : member ∈ members := by
  have hfold {rest kept : List (String × α)} :
      member ∈ rest.foldl (fun kept other => putMember other.1 other.2 kept) kept →
        member ∈ kept ∨ member ∈ rest := by
    induction rest generalizing kept with
    | nil => exact .inl
    | cons first rest ih =>
      intro hmem
      rcases ih hmem with hput | hrest
      · rcases mem_of_mem_putMember hput with rfl | hkept
        · exact .inr List.mem_cons_self
        · exact .inl hkept
      · exact .inr (List.mem_cons_of_mem _ hrest)
  exact (hfold h).resolve_left List.not_mem_nil

namespace Json

theorem exists_of_mem_mergedItems {value : Json} :
    ∀ {items : List Json}, value ∈ mergedItems items → ∃ item ∈ items, value = item.merged
  | item :: rest, h => by
    rw [mergedItems] at h
    rcases List.mem_cons.mp h with rfl | hrest
    · exact ⟨item, List.mem_cons_self, rfl⟩
    · obtain ⟨found, hmem, hfound⟩ := exists_of_mem_mergedItems hrest
      exact ⟨found, List.mem_cons_of_mem _ hmem, hfound⟩

theorem exists_of_mem_mergedMembers {key : String} {value : Json} :
    ∀ {members : List (String × Json)}, (key, value) ∈ mergedMembers members →
      ∃ v, (key, v) ∈ members ∧ value = v.merged
  | (k, v) :: rest, h => by
    rw [mergedMembers] at h
    rcases List.mem_cons.mp h with hfirst | hrest
    · cases hfirst
      exact ⟨v, List.mem_cons_self, rfl⟩
    · obtain ⟨found, hmem, hfound⟩ := exists_of_mem_mergedMembers hrest
      exact ⟨found, List.mem_cons_of_mem _ hmem, hfound⟩

/-- No text is new where repeated keys are merged. -/
theorem hasText_of_merged {text : String} :
    ∀ {json : Json}, HasText text json.merged → HasText text json
  | .array items, h => by
    rw [merged] at h
    cases h with
    | item hmem htext =>
      obtain ⟨item, hitem, rfl⟩ := exists_of_mem_mergedItems hmem
      exact .item hitem (hasText_of_merged htext)
  | .object members, h => by
    rw [merged] at h
    cases h with
    | member hmem htext =>
      obtain ⟨value, hvalue, rfl⟩ := exists_of_mem_mergedMembers (mem_of_mem_mergeMembers hmem)
      have hsmaller := List.sizeOf_lt_of_mem hvalue
      have hvalue_smaller : sizeOf value < 1 + sizeOf members := by
        rw [Prod.mk.sizeOf_spec] at hsmaller
        omega
      exact .member hvalue (hasText_of_merged htext)
  | .null, h | .bool _, h | .number _, h | .string _, h => h

end Json

/-! ## What readers leave -/

theorem length_skipBlanks_le (cs : List Char) : (skipBlanks cs).length ≤ cs.length :=
  (List.dropWhile_suffix _).length_le

theorem length_digits_le (cs : List Char) : (Decimal.takeDigits cs).2.length ≤ cs.length :=
  (List.dropWhile_suffix _).length_le

theorem length_le_of_wholeDigits? {cs digits rest : List Char}
    (h : wholeDigits? cs = some (digits, rest)) : rest.length ≤ cs.length := by
  have hrest := length_digits_le cs
  unfold wholeDigits? at h
  split at h <;> simp_all

theorem length_le_of_fractionDigits? {cs rest : List Char} {digits : Option (List Char)}
    (h : fractionDigits? cs = some (digits, rest)) : rest.length ≤ cs.length := by
  unfold fractionDigits? at h
  split at h
  · next cs =>
    have hrest := length_digits_le cs
    split at h <;> simp_all <;> omega
  · cases h
    exact Nat.le_refl _

theorem length_takeSign_le (cs : List Char) : (Decimal.takeSign cs).2.length ≤ cs.length := by
  unfold Decimal.takeSign
  split <;> simp

theorem length_le_of_powerDigits? {cs rest : List Char} {power : Option (Bool × List Char)}
    (h : powerDigits? cs = some (power, rest)) : rest.length ≤ cs.length := by
  unfold powerDigits? at h
  split at h
  · next c cs =>
    split at h
    · have hsign := length_takeSign_le cs
      have hrest := length_digits_le (Decimal.takeSign cs).2
      dsimp only at h
      split at h <;> simp_all <;> omega
    · cases h
      exact Nat.le_refl _
  · cases h
    exact Nat.le_refl _

/-- A number is at the front. -/
theorem length_le_of_readNumber? {cs rest : List Char} {n : Number}
    (h : readNumber? cs = some (n, rest)) : rest.length ≤ cs.length := by
  unfold readNumber? at h
  simp only [Option.bind_eq_bind, Option.bind_eq_some_iff, Option.pure_def, Option.some.injEq,
    Prod.mk.injEq, Prod.exists] at h
  obtain ⟨whole, cs₁, hwhole, fraction, cs₂, hfraction, power, cs₃, hpower, number, -, -, rfl⟩ := h
  have h₁ := length_le_of_wholeDigits? hwhole
  have h₂ := length_le_of_fractionDigits? hfraction
  have h₃ := length_le_of_powerDigits? hpower
  refine Nat.le_trans h₃ (Nat.le_trans h₂ (Nat.le_trans h₁ ?_))
  -- a sign is passed over
  split <;> simp

/-- A character of a string, and the rest of the string. -/
theorem exists_of_map_readString? {c : Char} {cs text rest : List Char}
    (h : ((readString? cs).map fun (tail, rest) => (c :: tail, rest)) = some (text, rest)) :
    ∃ tail, readString? cs = some (tail, rest) ∧ text = c :: tail := by
  obtain ⟨⟨tail, left⟩, htail, hsame⟩ := Option.map_eq_some_iff.mp h
  cases hsame
  exact ⟨tail, htail, rfl⟩

/-- A string is read from more characters than it has, the closing quote being one. -/
theorem length_lt_of_readString? {cs : List Char} : ∀ {text rest : List Char},
    readString? cs = some (text, rest) → text.length + rest.length < cs.length := by
  fun_induction readString? cs with
  | case1 | case3 | case4 | case5 | case7 | case8 | case10 | case12 => nofun
  | case2 rest =>
    intro text rest h
    cases h
    simp
  | case6 | case9 | case11 | case13 =>
    rename_i ih
    intro text rest h
    obtain ⟨tail, htail, rfl⟩ := exists_of_map_readString? h
    have hless := ih htail
    simp only [List.length_cons]
    omega

/-! ## Texts in what is read -/

/-- What is read from so many characters holds shorter texts only, and the rest is no more. -/
structure ReadsShorter (length : Nat) (json : Json) (rest : List Char) : Prop where
  texts : ∀ text, json.HasText text → text.length < length
  rest : rest.length ≤ length

theorem ReadsShorter.mono {m n : Nat} {json : Json} {rest : List Char}
    (h : ReadsShorter m json rest) (hless : m ≤ n) : ReadsShorter n json rest :=
  ⟨fun text htext => Nat.lt_of_lt_of_le (h.texts text htext) hless, Nat.le_trans h.rest hless⟩

/-- An item in front of others. -/
theorem ReadsShorter.item {m n : Nat} {item : Json} {items : List Json} {behind rest : List Char}
    (h : ReadsShorter n item behind) (hitems : ReadsShorter m (.array items) rest) (hless : m ≤ n) :
    ReadsShorter n (.array (item :: items)) rest := by
  refine ⟨fun text htext => ?_, Nat.le_trans hitems.rest hless⟩
  cases htext with
  | item hmem htext =>
    rcases List.mem_cons.mp hmem with rfl | hrest
    · exact h.texts text htext
    · exact Nat.lt_of_lt_of_le (hitems.texts text (.item hrest htext)) hless

/-- A member in front of others. -/
theorem ReadsShorter.member {m n : Nat} {key : String} {value : Json}
    {members : List (String × Json)} {behind rest : List Char} (h : ReadsShorter n value behind)
    (hmembers : ReadsShorter m (.object members) rest) (hless : m ≤ n) :
    ReadsShorter n (.object ((key, value) :: members)) rest := by
  refine ⟨fun text htext => ?_, Nat.le_trans hmembers.rest hless⟩
  cases htext with
  | member hmem htext =>
    rcases List.mem_cons.mp hmem with hfirst | hrest
    · cases hfirst
      exact h.texts text htext
    · exact Nat.lt_of_lt_of_le (hmembers.texts text (.member hrest htext)) hless

/-- A value without texts. -/
theorem ReadsShorter.bare {n : Nat} {json : Json} {rest : List Char}
    (hbare : ∀ text, ¬json.HasText text) (hrest : rest.length ≤ n) : ReadsShorter n json rest :=
  ⟨fun text htext => absurd htext (hbare text), hrest⟩

mutual
/-- A value at the front of characters. -/
theorem readsShorter_readValue? {json : Json} {rest : List Char} :
    ∀ {fuel : Nat} {cs : List Char} {room : Nat},
      readValue? fuel .whole cs room = some (json, rest) → ReadsShorter cs.length json rest
  | 0, cs, room, h => by
    rw [readValue?] at h
    cases h
  | fuel + 1, cs, room, h => by
    have hblanks := length_skipBlanks_le cs
    rw [readValue?] at h
    split at h
    · next hcs =>
      cases h
      exact .bare nofun (by simp only [hcs, List.length_cons] at hblanks; omega)
    · next hcs =>
      cases h
      exact .bare nofun (by simp only [hcs, List.length_cons] at hblanks; omega)
    · next hcs =>
      cases h
      exact .bare nofun (by simp only [hcs, List.length_cons] at hblanks; omega)
    · next behind hcs =>
      obtain ⟨⟨text, left⟩, htext, hsame⟩ := Option.map_eq_some_iff.mp h
      cases hsame
      have hless := length_lt_of_readString? htext
      simp only [hcs, List.length_cons] at hblanks
      refine ⟨fun found hfound => ?_, by omega⟩
      cases hfound
      rw [String.length_ofList]
      omega
    · next behind hcs =>
      simp only [hcs, List.length_cons] at hblanks
      cases room with
      | zero => cases h
      | succ room =>
        have hinside := length_skipBlanks_le behind
        dsimp only at h
        split at h
        · next hclosed =>
          cases h
          exact .bare nofun (by simp only [hclosed, List.length_cons] at hinside; omega)
        · obtain ⟨⟨items, left⟩, hitems, hsame⟩ := Option.map_eq_some_iff.mp h
          cases hsame
          exact (readsShorter_readItems? hitems).mono (by omega)
    · next behind hcs =>
      simp only [hcs, List.length_cons] at hblanks
      cases room with
      | zero => cases h
      | succ room =>
        have hinside := length_skipBlanks_le behind
        dsimp only at h
        split at h
        · next hclosed =>
          cases h
          exact .bare nofun (by simp only [hclosed, List.length_cons] at hinside; omega)
        · obtain ⟨⟨members, left⟩, hmembers, hsame⟩ := Option.map_eq_some_iff.mp h
          cases hsame
          exact (readsShorter_readMembers? hmembers).mono (by omega)
    · obtain ⟨⟨n, left⟩, hn, hsame⟩ := Option.map_eq_some_iff.mp h
      cases hsame
      exact .bare nofun (Nat.le_trans (length_le_of_readNumber? hn) hblanks)

/-- Items up to the bracket that closes them. -/
theorem readsShorter_readItems? {items : List Json} {rest : List Char} :
    ∀ {fuel index : Nat} {cs : List Char} {room : Nat},
      readItems? fuel .whole index cs room = some (items, rest) →
        ReadsShorter cs.length (.array items) rest
  | 0, index, cs, room, h => by
    rw [readItems?] at h
    cases h
  | fuel + 1, index, cs, room, h => by
    rw [readItems?, Shape.item_whole] at h
    split at h
    · cases h
    · next item behind hitem =>
      have hfirst := readsShorter_readValue? hitem
      have hblanks := length_skipBlanks_le behind
      split at h
      · next hclosed =>
        cases h
        simp only [hclosed, List.length_cons] at hblanks
        exact hfirst.item (m := behind.length) (.bare nofun (by omega)) hfirst.rest
      · next more hmore =>
        obtain ⟨⟨others, left⟩, hothers, hsame⟩ := Option.map_eq_some_iff.mp h
        cases hsame
        simp only [hmore, List.length_cons] at hblanks
        have hbehind := hfirst.rest
        exact hfirst.item (readsShorter_readItems? hothers) (by omega)
      · cases h

/-- Members up to the brace that closes them. -/
theorem readsShorter_readMembers? {members : List (String × Json)} {rest : List Char} :
    ∀ {fuel : Nat} {cs : List Char} {room : Nat},
      readMembers? fuel .whole cs room = some (members, rest) →
        ReadsShorter cs.length (.object members) rest
  | 0, cs, room, h => by
    rw [readMembers?] at h
    cases h
  | fuel + 1, cs, room, h => by
    have hblanks := length_skipBlanks_le cs
    rw [readMembers?] at h
    split at h
    · next quoted hcs =>
      simp only [hcs, List.length_cons] at hblanks
      split at h
      · cases h
      · next key behind hkey =>
        have hless := length_lt_of_readString? hkey
        have hblanks₁ := length_skipBlanks_le behind
        split at h
        · next written hwritten =>
          simp only [hwritten, List.length_cons] at hblanks₁
          dsimp only at h
          rw [Shape.member?_whole] at h
          dsimp only at h
          cases hvalue : readValue? fuel .whole written room with
          | none =>
            rw [hvalue] at h
            cases h
          | some found =>
            obtain ⟨value, left⟩ := found
            rw [hvalue] at h
            dsimp only [Option.map_some] at h
            have hfirst := (readsShorter_readValue? hvalue).mono (n := cs.length) (by omega)
            have hrest := (readsShorter_readValue? hvalue).rest
            have hblanks₂ := length_skipBlanks_le left
            split at h
            · next hclosed =>
              cases h
              simp only [hclosed, List.length_cons] at hblanks₂
              exact hfirst.member (m := left.length) (.bare nofun (by omega)) (by omega)
            · next more hmore =>
              obtain ⟨⟨others, last⟩, hothers, hsame⟩ := Option.map_eq_some_iff.mp h
              cases hsame
              simp only [hmore, List.length_cons] at hblanks₂
              exact hfirst.member (readsShorter_readMembers? hothers) (by omega)
            · cases h
        · cases h
    · cases h
end

/-- A text that stands in a JSON text is shorter. -/
theorem Json.length_lt_of_read? {s text : String} {json : Json} (h : Json.read? s = some json)
    (htext : json.HasText text) : text.length < s.length := by
  obtain ⟨written, hwritten, rfl⟩ := Option.map_eq_some_iff.mp h
  unfold parse? parseAs? at hwritten
  dsimp only at hwritten
  split at hwritten
  · next value rest hvalue =>
    split at hwritten
    · cases hwritten
      rw [← String.length_toList (s := s)]
      exact (readsShorter_readValue? hvalue).texts text (hasText_of_merged htext)
    · cases hwritten
  · cases hwritten

end JsonSql
