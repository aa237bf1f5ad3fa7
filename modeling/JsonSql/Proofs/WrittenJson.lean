import JsonSql.Json.Reader
import JsonSql.Proofs.WrittenNumbers

set_option autoImplicit false

/-!
# JSON text read again

The compact text of a value is read as the value with its numbers read again
(`Json.parseAs?_text`), if the containers in it may be opened and if the reader looks at all of it.
-/

namespace JsonSql

/-! ## Strings -/

theorem hexUnit?_hexDigit :
    ∀ n < 32, hexUnit? '0' '0' (hexDigit (n / 16)) (hexDigit (n % 16)) = some n := by
  decide

/-- A character as it is written is read as the character. -/
theorem readString?_escapeChar (c : Char) (cs : List Char) :
    readString? (escapeChar c ++ cs) =
      (readString? cs).map fun read => (c :: read.1, read.2) := by
  unfold escapeChar
  split
  · simp [readString?, escapedChar?]
  · simp [readString?, escapedChar?]
  · simp [readString?, escapedChar?]
  · simp [readString?, escapedChar?]
  · simp [readString?, escapedChar?]
  · simp [readString?, escapedChar?]
  · simp [readString?, escapedChar?]
  · next hquote hbackslash _ _ _ _ _ =>
    split
    · next hcontrol =>
      have hhigh : isHighSurrogate c.toNat = false := by simp [isHighSurrogate]; omega
      have hlow : isLowSurrogate c.toNat = false := by simp [isLowSurrogate]; omega
      simp [readString?, hexUnit?_hexDigit c.toNat hcontrol, hhigh, hlow]
    · next hplain =>
      rw [List.singleton_append, readString?.eq_def]
      split
      · next heq => cases heq
      · next heq =>
        cases heq
        exact absurd rfl hquote
      · next heq =>
        cases heq
        exact absurd rfl hbackslash
      · next heq =>
        cases heq
        exact absurd rfl hbackslash
      · next heq =>
        cases heq
        have hne : c ≠ '\\' := hbackslash
        rw [if_neg (by simp [hplain, hne])]

/-- The characters of a string as they are written are read as the string. -/
theorem readString?_quoted (s rest : List Char) :
    readString? (s.flatMap escapeChar ++ '"' :: rest) = some (s, rest) := by
  induction s with
  | nil => simp [readString?]
  | cons c s ih =>
    rw [List.flatMap_cons, List.append_assoc, readString?_escapeChar, ih]
    rfl

/-! ## Values -/

namespace Json

mutual
/-- The value with its numbers as their texts are read. -/
def reread : Json → Json
  | number n => number n.reread
  | array items => array (rereadItems items)
  | object members => object (rereadMembers members)
  | other => other

/-- Every item with its numbers as their texts are read. -/
def rereadItems : List Json → List Json
  | [] => []
  | item :: rest => item.reread :: rereadItems rest

/-- The value of every member with its numbers as their texts are read. -/
def rereadMembers : List (String × Json) → List (String × Json)
  | [] => []
  | (key, value) :: rest => (key, value.reread) :: rereadMembers rest
end

/-- The values that come from JSON text if so many containers may be opened. -/
inductive Kept : Nat → Json → Prop
  | null {room : Nat} : Kept room .null
  | bool {room : Nat} {b : Bool} : Kept room (.bool b)
  | number {room : Nat} {n : Number} : n.Kept → Kept room (.number n)
  | string {room : Nat} {s : String} : Kept room (.string s)
  | array {room : Nat} {items : List Json} :
      (∀ item ∈ items, Kept room item) → Kept (room + 1) (.array items)
  | object {room : Nat} {members : List (String × Json)} :
      (∀ key value, (key, value) ∈ members → Kept room value) →
        Kept (room + 1) (.object members)

/-- All of a value is looked at by a reader with a shape. -/
inductive Seen : Shape → Json → Prop
  | null {shape : Shape} : Seen shape .null
  | bool {shape : Shape} {b : Bool} : Seen shape (.bool b)
  | number {shape : Shape} {n : Number} : Seen shape (.number n)
  | string {shape : Shape} {s : String} : Seen shape (.string s)
  | array {shape : Shape} {items : List Json} :
      (∀ item ∈ items, ∀ index, Seen (shape.item index) item) → Seen shape (.array items)
  | object {shape : Shape} {members : List (String × Json)} :
      (∀ key value, (key, value) ∈ members → (shape.member? key).isSome = true) →
        (∀ key value, (key, value) ∈ members → ∀ part, shape.member? key = some part →
          Seen part value) → Seen shape (.object members)

/-- Characters that a number may begin with. -/
def startsNumber (c : Char) : Bool := c = '-' || c.isDigit

/-- The text of a number begins with a minus or a digit. -/
theorem exists_numberText_eq {n : Number} (hn : n.Kept) :
    ∃ c cs, n.text.toList = c :: cs ∧ startsNumber c = true := by
  have hread := n.readNumber?_text hn endsNumber_nil
  rw [List.append_nil] at hread
  obtain ⟨c, cs, hcs, hc⟩ := exists_of_readNumber? hread
  exact ⟨c, cs, hcs, by simpa [startsNumber] using hc⟩

theorem ne_of_startsNumber {c d : Char} (h : startsNumber c = true) (hd : startsNumber d = false) :
    c ≠ d := by
  rintro rfl
  rw [h] at hd
  cases hd

theorem isJsonBlank_of_startsNumber {c : Char} (h : startsNumber c = true) :
    isJsonBlank c = false := by
  simp [isJsonBlank, ne_of_startsNumber h (d := ' ') rfl, ne_of_startsNumber h (d := '\n') rfl,
    ne_of_startsNumber h (d := '\t') rfl, ne_of_startsNumber h (d := '\r') rfl]

/-- The text of a value begins with a character that is neither blank nor the end of an array. -/
theorem Kept.exists_chars_eq {room : Nat} {v : Json} (h : v.Kept room) :
    ∃ c cs, v.chars = c :: cs ∧ isJsonBlank c = false ∧ c ≠ ']' := by
  cases h with
  | null => exact ⟨_, _, rfl, rfl, by decide⟩
  | @bool _ b => cases b <;> exact ⟨_, _, rfl, rfl, by decide⟩
  | number hn =>
    obtain ⟨c, cs, hcs, hc⟩ := exists_numberText_eq hn
    exact ⟨c, cs, hcs, isJsonBlank_of_startsNumber hc, ne_of_startsNumber hc rfl⟩
  | string => exact ⟨_, _, rfl, rfl, by decide⟩
  | array => exact ⟨_, _, rfl, rfl, by decide⟩
  | object => exact ⟨_, _, rfl, rfl, by decide⟩

theorem skipBlanks_cons {c : Char} (h : isJsonBlank c = false) (cs : List Char) :
    skipBlanks (c :: cs) = c :: cs :=
  List.dropWhile_cons_of_neg (by rw [h]; decide)

section

variable {fuel room : Nat} {shape : Shape} {rest : List Char}

/-- What begins with a minus or a digit is read as a number. -/
theorem readValue?_number {c : Char} (hc : startsNumber c = true) (cs : List Char) :
    readValue? (fuel + 1) shape (c :: cs) room =
      (readNumber? (c :: cs)).map fun read => (.number read.1, read.2) := by
  have hne {d : Char} {ds : List Char} (hd : startsNumber d = false) : ¬c :: cs = d :: ds :=
    fun h => ne_of_startsNumber hc hd (List.cons.inj h).1
  rw [readValue?, skipBlanks_cons (isJsonBlank_of_startsNumber hc)]
  split
  · next heq => exact absurd heq (hne rfl)
  · next heq => exact absurd heq (hne rfl)
  · next heq => exact absurd heq (hne rfl)
  · next heq => exact absurd heq (hne rfl)
  · next heq => exact absurd heq (hne rfl)
  · next heq => exact absurd heq (hne rfl)
  · rfl

theorem readValue?_string (s : String) :
    readValue? (fuel + 1) shape (quoteChars s ++ rest) room = some (.string s, rest) := by
  rw [quoteChars, List.cons_append, List.cons_append, List.append_assoc, List.singleton_append,
    readValue?, skipBlanks_cons rfl]
  show (readString? (s.toList.flatMap escapeChar ++ '"' :: rest)).map _ = _
  rw [readString?_quoted]
  simp

/-- The last item of an array. -/
theorem readItems?_last {index : Nat} {cs : List Char} {item : Json}
    (h : readValue? fuel (shape.item index) cs room = some (item, ']' :: rest)) :
    readItems? (fuel + 1) shape index cs room = some ([item], rest) := by
  rw [readItems?, h]
  rfl

/-- An item of an array in front of others. -/
theorem readItems?_more {index : Nat} {cs more : List Char} {item : Json} {items : List Json}
    (h : readValue? fuel (shape.item index) cs room = some (item, ',' :: more))
    (hmore : readItems? fuel shape (index + 1) more room = some (items, rest)) :
    readItems? (fuel + 1) shape index cs room = some (item :: items, rest) := by
  rw [readItems?, h]
  show (readItems? fuel shape (index + 1) more room).map _ = _
  rw [hmore]
  rfl

/-- The last member of an object. -/
theorem readMembers?_last {key : String} {part : Shape} {cs : List Char} {value : Json}
    (hpart : shape.member? key = some part)
    (h : readValue? fuel part cs room = some (value, '\x7d' :: rest)) :
    readMembers? (fuel + 1) shape (quoteChars key ++ ':' :: cs) room =
      some ([(key, value)], rest) := by
  rw [quoteChars, List.cons_append, List.cons_append, List.append_assoc, List.singleton_append,
    readMembers?, skipBlanks_cons rfl]
  have hcolon : skipBlanks (':' :: cs) = ':' :: cs := rfl
  have hbrace : skipBlanks ('\x7d' :: rest) = '\x7d' :: rest := rfl
  simp only [readString?_quoted, hcolon, String.ofList_toList, hpart, h, Option.map_some, hbrace]

/-- A member of an object in front of others. -/
theorem readMembers?_more {key : String} {part : Shape} {cs more : List Char} {value : Json}
    {members : List (String × Json)} (hpart : shape.member? key = some part)
    (h : readValue? fuel part cs room = some (value, ',' :: more))
    (hmore : readMembers? fuel shape more room = some (members, rest)) :
    readMembers? (fuel + 1) shape (quoteChars key ++ ':' :: cs) room =
      some ((key, value) :: members, rest) := by
  rw [quoteChars, List.cons_append, List.cons_append, List.append_assoc, List.singleton_append,
    readMembers?, skipBlanks_cons rfl]
  have hcolon : skipBlanks (':' :: cs) = ':' :: cs := rfl
  have hcomma : skipBlanks (',' :: more) = ',' :: more := rfl
  simp only [readString?_quoted, hcolon, String.ofList_toList, hpart, h, Option.map_some, hcomma,
    hmore, List.singleton_append]

/-- An array with items in it. -/
theorem readValue?_items {c : Char} {cs : List Char} {items : List Json}
    (hblank : isJsonBlank c = false) (hopen : c ≠ ']')
    (h : readItems? fuel shape 0 (c :: cs) room = some (items, rest)) :
    readValue? (fuel + 1) shape ('[' :: c :: cs) (room + 1) = some (.array items, rest) := by
  rw [readValue?, skipBlanks_cons rfl]
  simp only [skipBlanks_cons hblank]
  split
  · next heq =>
    cases heq
    exact absurd rfl hopen
  · rw [h]
    rfl

/-- An object with members in it. -/
theorem readValue?_members {cs : List Char} {members : List (String × Json)}
    (h : readMembers? fuel shape ('"' :: cs) room = some (members, rest)) :
    readValue? (fuel + 1) shape ('\x7b' :: '"' :: cs) (room + 1) =
      some (.object members, rest) := by
  have hquote : skipBlanks ('"' :: cs) = '"' :: cs := rfl
  rw [readValue?, skipBlanks_cons rfl]
  simp only [hquote]
  split
  · next heq => cases heq
  · rw [h]
    rfl

end

theorem endsNumber_cons {c : Char} (h : (c = ',' || c = ']' || c = '\x7d') = true)
    (cs : List Char) : EndsNumber (c :: cs) := by
  simp only [Bool.or_eq_true, decide_eq_true_eq] at h
  rcases h with (rfl | rfl) | rfl <;> rintro c ⟨⟩ <;> decide

theorem itemChars_cons_cons (item next : Json) (items : List Json) :
    itemChars (item :: next :: items) = item.chars ++ ',' :: itemChars (next :: items) := by
  rw [itemChars]
  nofun

theorem memberChars_cons_cons (key : String) (value : Json) (next : String × Json)
    (members : List (String × Json)) :
    memberChars ((key, value) :: next :: members) =
      quoteChars key ++ ':' :: value.chars ++ ',' :: memberChars (next :: members) := by
  rw [memberChars]
  nofun

/-- The text of members begins with a quote. -/
theorem exists_memberChars_eq (member : String × Json) (members : List (String × Json)) :
    ∃ cs, memberChars (member :: members) = '"' :: cs := by
  cases members with
  | nil => exact ⟨_, rfl⟩
  | cons next members =>
    rw [memberChars_cons_cons]
    exact ⟨_, rfl⟩

/-- The text of items begins as that of the first one. -/
theorem exists_itemChars_eq {item : Json} {room : Nat} (h : item.Kept room) (items : List Json) :
    ∃ c cs, itemChars (item :: items) = c :: cs ∧ isJsonBlank c = false ∧ c ≠ ']' := by
  obtain ⟨c, cs, hcs, hc⟩ := h.exists_chars_eq
  cases items with
  | nil => exact ⟨c, cs, hcs, hc⟩
  | cons next items =>
    rw [itemChars_cons_cons, hcs]
    exact ⟨c, _, rfl, hc⟩

mutual
/-- The characters of a value are read as the value with its numbers read again. -/
theorem readValue?_chars : ∀ {v : Json} {fuel room : Nat} {shape : Shape} {rest : List Char},
    v.Kept room → v.Seen shape → v.chars.length ≤ fuel → EndsNumber rest →
      readValue? fuel shape (v.chars ++ rest) room = some (v.reread, rest)
  | v, 0, room, shape, rest, hkept, _, hfuel, _ => by
    obtain ⟨c, cs, hcs, -⟩ := hkept.exists_chars_eq
    rw [hcs] at hfuel
    cases hfuel
  | .null, fuel + 1, room, shape, rest, _, _, _, _ => by
    rw [chars, readValue?]
    rfl
  | .bool b, fuel + 1, room, shape, rest, _, _, _, _ => by
    rw [chars, readValue?]
    cases b <;> rfl
  | .number n, fuel + 1, room, shape, rest, .number hn, _, _, hrest => by
    obtain ⟨c, cs, hcs, hc⟩ := exists_numberText_eq hn
    have hread := n.readNumber?_text hn hrest
    rw [hcs] at hread
    rw [chars, hcs, List.cons_append, readValue?_number hc, ← List.cons_append, hread, reread]
    rfl
  | .string s, fuel + 1, room, shape, rest, _, _, _, _ => by
    rw [chars, readValue?_string, reread]
    all_goals nofun
  | .array [], fuel + 1, room + 1, shape, rest, _, _, _, _ => by
    rw [chars, readValue?]
    rfl
  | .array (item :: items), fuel + 1, room + 1, shape, rest, .array hkept, .array hseen, hfuel,
      _ => by
    have hlength : (itemChars (item :: items)).length < fuel := by
      rw [chars, List.length_append, List.length_cons, List.length_singleton] at hfuel
      omega
    have hread : readItems? fuel shape 0 _ room = some (_, rest) :=
      readItems?_chars (List.cons_ne_nil item items) hkept hseen hlength
    obtain ⟨c, cs, hcs, hblank, hopen⟩ :=
      exists_itemChars_eq (hkept item List.mem_cons_self) items
    rw [hcs, List.cons_append] at hread
    rw [chars, hcs, List.cons_append, List.cons_append, List.cons_append, List.cons_append,
      List.append_assoc, List.singleton_append, reread]
    exact readValue?_items hblank hopen hread
  | .object [], fuel + 1, room + 1, shape, rest, _, _, _, _ => by
    rw [chars, readValue?]
    rfl
  | .object (member :: members), fuel + 1, room + 1, shape, rest, .object hkept,
      .object hshape hseen, hfuel, _ => by
    have hlength : (memberChars (member :: members)).length < fuel := by
      rw [chars, List.length_append, List.length_cons, List.length_singleton] at hfuel
      omega
    have hread : readMembers? fuel shape _ room = some (_, rest) :=
      readMembers?_chars (List.cons_ne_nil member members) hkept hshape hseen hlength
    obtain ⟨cs, hcs⟩ := exists_memberChars_eq member members
    rw [hcs, List.cons_append] at hread
    rw [chars, hcs, List.cons_append, List.cons_append, List.cons_append, List.cons_append,
      List.append_assoc, List.singleton_append, reread]
    exact readValue?_members hread

/-- The characters of items are read as the items with their numbers read again. -/
theorem readItems?_chars : ∀ {items : List Json} {fuel room index : Nat} {shape : Shape}
    {rest : List Char}, items ≠ [] → (∀ item ∈ items, item.Kept room) →
      (∀ item ∈ items, ∀ index, item.Seen (shape.item index)) →
      (itemChars items).length < fuel →
      readItems? fuel shape index (itemChars items ++ ']' :: rest) room =
        some (rereadItems items, rest)
  | [], fuel, room, index, shape, rest, hne, _, _, _ => absurd rfl hne
  | [item], fuel + 1, room, index, shape, rest, _, hkept, hseen, hfuel => by
    have hmem : item ∈ [item] := List.mem_cons_self
    rw [itemChars] at hfuel ⊢
    exact readItems?_last (readValue?_chars (hkept item hmem) (hseen item hmem index)
      (Nat.le_of_lt_succ hfuel) (endsNumber_cons rfl rest))
  | item :: next :: items, fuel + 1, room, index, shape, rest, _, hkept, hseen, hfuel => by
    have hmem : item ∈ item :: next :: items := List.mem_cons_self
    rw [itemChars_cons_cons, List.length_append, List.length_cons] at hfuel
    rw [itemChars_cons_cons, List.append_assoc, List.cons_append]
    refine readItems?_more (readValue?_chars (hkept item hmem) (hseen item hmem index) (by omega)
      (endsNumber_cons rfl _)) ?_
    exact readItems?_chars (List.cons_ne_nil next items)
      (fun item hitem => hkept item (List.mem_cons_of_mem _ hitem))
      (fun item hitem => hseen item (List.mem_cons_of_mem _ hitem)) (by omega)

/-- The characters of members are read as the members with their numbers read again. -/
theorem readMembers?_chars : ∀ {members : List (String × Json)} {fuel room : Nat} {shape : Shape}
    {rest : List Char}, members ≠ [] →
      (∀ key value, (key, value) ∈ members → value.Kept room) →
      (∀ key value, (key, value) ∈ members → (shape.member? key).isSome = true) →
      (∀ key value, (key, value) ∈ members → ∀ part, shape.member? key = some part →
          value.Seen part) → (memberChars members).length < fuel →
      readMembers? fuel shape (memberChars members ++ '\x7d' :: rest) room =
        some (rereadMembers members, rest)
  | [], fuel, room, shape, rest, hne, _, _, _, _ => absurd rfl hne
  | [(key, value)], fuel + 1, room, shape, rest, _, hkept, hshape, hseen, hfuel => by
    have hmem : (key, value) ∈ [(key, value)] := List.mem_cons_self
    obtain ⟨part, hpart⟩ := Option.isSome_iff_exists.mp (hshape key value hmem)
    rw [memberChars, List.length_append, List.length_cons] at hfuel
    rw [memberChars, List.append_assoc, List.cons_append]
    exact readMembers?_last hpart (readValue?_chars (hkept key value hmem)
      (hseen key value hmem part hpart) (by omega) (endsNumber_cons rfl rest))
  | (key, value) :: next :: members, fuel + 1, room, shape, rest, _, hkept, hshape, hseen,
      hfuel => by
    have hmem : (key, value) ∈ (key, value) :: next :: members := List.mem_cons_self
    obtain ⟨part, hpart⟩ := Option.isSome_iff_exists.mp (hshape key value hmem)
    rw [memberChars_cons_cons] at hfuel ⊢
    simp only [List.length_append, List.length_cons] at hfuel
    simp only [List.append_assoc, List.cons_append]
    refine readMembers?_more hpart (readValue?_chars (hkept key value hmem)
      (hseen key value hmem part hpart) (by omega) (endsNumber_cons rfl _)) ?_
    exact readMembers?_chars (List.cons_ne_nil next members)
      (fun key value hmember => hkept key value (List.mem_cons_of_mem _ hmember))
      (fun key value hmember => hshape key value (List.mem_cons_of_mem _ hmember))
      (fun key value hmember => hseen key value (List.mem_cons_of_mem _ hmember)) (by omega)
end

/-- The text of a value is read as the value with its numbers read again, if all of it is looked
at. -/
theorem parseAs?_text {shape : Shape} {v : Json} (hkept : v.Kept nestingLimit)
    (hseen : v.Seen shape) : parseAs? shape v.text = some v.reread := by
  have hread := readValue?_chars hkept hseen (Nat.le_succ v.chars.length) endsNumber_nil
  rw [List.append_nil] at hread
  rw [parseAs?, text, String.toList_ofList, hread]
  rfl

/-! ## What is read -/

mutual
/-- A value that is read comes from JSON text. -/
theorem kept_of_readValue? {json : Json} {rest : List Char} :
    ∀ {fuel : Nat} {shape : Shape} {cs : List Char} {room : Nat},
      readValue? fuel shape cs room = some (json, rest) → json.Kept room
  | 0, shape, cs, room, h => by
    rw [readValue?] at h
    cases h
  | fuel + 1, shape, cs, room, h => by
    rw [readValue?] at h
    split at h
    · cases h
      exact .null
    · cases h
      exact .bool
    · cases h
      exact .bool
    · obtain ⟨read, -, hsame⟩ := Option.map_eq_some_iff.mp h
      cases hsame
      exact .string
    · cases room with
      | zero => cases h
      | succ room =>
        dsimp only at h
        split at h
        · cases h
          exact .array nofun
        · obtain ⟨⟨items, left⟩, hitems, hsame⟩ := Option.map_eq_some_iff.mp h
          cases hsame
          exact .array (kept_of_readItems? hitems)
    · cases room with
      | zero => cases h
      | succ room =>
        dsimp only at h
        split at h
        · cases h
          exact .object nofun
        · obtain ⟨⟨members, left⟩, hmembers, hsame⟩ := Option.map_eq_some_iff.mp h
          cases hsame
          exact .object (kept_of_readMembers? hmembers)
    · obtain ⟨⟨n, left⟩, hn, hsame⟩ := Option.map_eq_some_iff.mp h
      cases hsame
      exact .number (kept_of_readNumber? hn)

/-- Items that are read come from JSON text. -/
theorem kept_of_readItems? {items : List Json} {rest : List Char} :
    ∀ {fuel : Nat} {shape : Shape} {index : Nat} {cs : List Char} {room : Nat},
      readItems? fuel shape index cs room = some (items, rest) → ∀ item ∈ items, item.Kept room
  | 0, shape, index, cs, room, h => by
    rw [readItems?] at h
    cases h
  | fuel + 1, shape, index, cs, room, h => by
    rw [readItems?] at h
    split at h
    · cases h
    · next item behind hitem =>
      have hfirst := kept_of_readValue? hitem
      split at h
      · cases h
        exact List.forall_mem_singleton.mpr hfirst
      · obtain ⟨⟨others, left⟩, hothers, hsame⟩ := Option.map_eq_some_iff.mp h
        cases hsame
        exact List.forall_mem_cons.mpr ⟨hfirst, kept_of_readItems? hothers⟩
      · cases h

/-- The values of members that are read come from JSON text. -/
theorem kept_of_readMembers? {members : List (String × Json)} {rest : List Char} :
    ∀ {fuel : Nat} {shape : Shape} {cs : List Char} {room : Nat},
      readMembers? fuel shape cs room = some (members, rest) →
        ∀ key value, (key, value) ∈ members → value.Kept room
  | 0, shape, cs, room, h => by
    rw [readMembers?] at h
    cases h
  | fuel + 1, shape, cs, room, h => by
    rw [readMembers?] at h
    split at h
    · split at h
      · cases h
      · next key behind hkey =>
        split at h
        · next written hwritten =>
          dsimp only at h
          split at h
          · cases h
          · next member left hmember =>
            -- a member that is passed over is no member of what is read
            have hfirst : ∀ key value, (key, value) ∈ member → value.Kept room := by
              split at hmember
              · obtain ⟨behind, -, hsame⟩ := Option.map_eq_some_iff.mp hmember
                cases hsame
                nofun
              · obtain ⟨⟨value, behind⟩, hvalue, hsame⟩ := Option.map_eq_some_iff.mp hmember
                cases hsame
                intro key value hmem
                cases List.mem_singleton.mp hmem
                exact kept_of_readValue? hvalue
            split at h
            · cases h
              exact hfirst
            · obtain ⟨⟨others, last⟩, hothers, hsame⟩ := Option.map_eq_some_iff.mp h
              cases hsame
              intro key value hmem
              rcases List.mem_append.mp hmem with hmem | hmem
              · exact hfirst key value hmem
              · exact kept_of_readMembers? hothers key value hmem
            · cases h
        · cases h
    · cases h
end

theorem kept_of_parseAs? {shape : Shape} {s : String} {json : Json}
    (h : parseAs? shape s = some json) : json.Kept nestingLimit := by
  unfold parseAs? at h
  dsimp only at h
  split at h
  · next value rest hvalue =>
    split at h
    · cases h
      exact kept_of_readValue? hvalue
    · cases h
  · cases h

end Json

end JsonSql
