set_option autoImplicit false

/-!
# Splitting at a character

A text falls into the pieces between the occurrences of a separator: one more piece than there are
separators, and joining the pieces with the separator gives the text back.
-/

namespace JsonSql.Text

/-- The pieces between the occurrences of `sep`; there is always at least one. -/
def splitChars (sep : Char) : List Char → List (List Char)
  | [] => [[]]
  | c :: cs =>
    if c = sep then [] :: splitChars sep cs
    else match splitChars sep cs with
      | [] => [[c]]
      | piece :: pieces => (c :: piece) :: pieces

/-- The pieces of a text between the occurrences of `sep`. -/
def split (sep : Char) (s : String) : List String :=
  (splitChars sep s.toList).map String.ofList

/-- The characters before and after the first occurrence of `sep`. -/
def splitOnceChars? (sep : Char) : List Char → Option (List Char × List Char)
  | [] => none
  | c :: cs =>
    if c = sep then some ([], cs)
    else (splitOnceChars? sep cs).map fun (before, after) => (c :: before, after)

/-- The text before and after the first occurrence of `sep`. -/
def splitOnce? (sep : Char) (s : String) : Option (String × String) :=
  (splitOnceChars? sep s.toList).map fun (before, after) => (.ofList before, .ofList after)

/-- Pieces written one after another with `sep` between them. -/
def joinChars (sep : Char) : List (List Char) → List Char
  | [] => []
  | [piece] => piece
  | piece :: pieces => piece ++ sep :: joinChars sep pieces

/-- Texts written one after another with `sep` between them. -/
def join (sep : Char) (pieces : List String) : String :=
  .ofList (joinChars sep (pieces.map String.toList))

/-- The rest of the characters after a given beginning. -/
def dropBeginning? : List Char → List Char → Option (List Char)
  | [], cs => some cs
  | _ :: _, [] => none
  | b :: bs, c :: cs => if b = c then dropBeginning? bs cs else none

/-- The text after a given beginning. -/
def after? (beginning s : String) : Option String :=
  (dropBeginning? beginning.toList s.toList).map String.ofList

/-- The text before a given ending. -/
def before? (ending s : String) : Option String :=
  (dropBeginning? ending.toList.reverse s.toList.reverse).map fun cs => .ofList cs.reverse

theorem dropBeginning?_append (beginning rest : List Char) :
    dropBeginning? beginning (beginning ++ rest) = some rest := by
  induction beginning with
  | nil => rfl
  | cons b bs ih => rw [List.cons_append, dropBeginning?, if_pos rfl, ih]

theorem after?_append (beginning rest : String) :
    after? beginning (beginning ++ rest) = some rest := by
  rw [after?, String.toList_append, dropBeginning?_append, Option.map_some, String.ofList_toList]

theorem before?_append (rest ending : String) : before? ending (rest ++ ending) = some rest := by
  rw [before?, String.toList_append, List.reverse_append, dropBeginning?_append, Option.map_some,
    List.reverse_reverse, String.ofList_toList]

theorem eq_append_of_dropBeginning? {beginning cs rest : List Char}
    (h : dropBeginning? beginning cs = some rest) : cs = beginning ++ rest := by
  induction beginning generalizing cs with
  | nil => exact Option.some.inj h
  | cons b bs ih =>
    cases cs with
    | nil => cases h
    | cons c cs =>
      rw [dropBeginning?] at h
      split at h
      · next hsame => rw [ih h, hsame, List.cons_append]
      · cases h

theorem eq_append_of_after? {beginning s rest : String} (h : after? beginning s = some rest) :
    s = beginning ++ rest := by
  obtain ⟨cs, hdrop, rfl⟩ := Option.map_eq_some_iff.mp h
  rw [← String.toList_inj, String.toList_append, String.toList_ofList]
  exact eq_append_of_dropBeginning? hdrop

theorem splitChars_ne_nil (sep : Char) (cs : List Char) : splitChars sep cs ≠ [] := by
  cases cs with
  | nil => simp [splitChars]
  | cons c cs =>
    simp only [splitChars]
    split
    · simp
    · split <;> simp

/-- Splitting loses nothing. -/
theorem joinChars_splitChars (sep : Char) (cs : List Char) :
    joinChars sep (splitChars sep cs) = cs := by
  induction cs with
  | nil => rfl
  | cons c cs ih =>
    have some_piece := splitChars_ne_nil sep cs
    simp only [splitChars]
    split
    · next same =>
      cases pieces : splitChars sep cs with
      | nil => exact absurd pieces some_piece
      | cons piece rest => rw [joinChars, List.nil_append, ← pieces, ih, same]; simp
    · cases pieces : splitChars sep cs with
      | nil => exact absurd pieces some_piece
      | cons piece rest =>
        rw [pieces] at ih
        cases rest with
        | nil => simpa [joinChars] using ih
        | cons next more => simpa [joinChars] using ih

/-- A text without the separator is one piece. -/
theorem splitChars_of_notMem {sep : Char} {cs : List Char} (h : sep ∉ cs) :
    splitChars sep cs = [cs] := by
  induction cs with
  | nil => rfl
  | cons c cs ih =>
    simp only [List.mem_cons, not_or] at h
    simp [splitChars, ih h.2, Ne.symm h.1]

/-- The first piece is what stands before the first separator. -/
theorem splitChars_eq_splitOnceChars? (sep : Char) (cs : List Char) :
    splitChars sep cs = match splitOnceChars? sep cs with
      | none => [cs]
      | some (before, after) => before :: splitChars sep after := by
  induction cs with
  | nil => rfl
  | cons c cs ih =>
    rw [splitChars, splitOnceChars?]
    split
    · rfl
    · rw [ih]
      cases splitOnceChars? sep cs <;> rfl

theorem split_ne_nil (sep : Char) (s : String) : split sep s ≠ [] :=
  mt List.map_eq_nil_iff.mp (splitChars_ne_nil sep s.toList)

theorem split_of_splitOnce?_eq_none {sep : Char} {s : String} (h : splitOnce? sep s = none) :
    split sep s = [s] := by
  rw [split, splitChars_eq_splitOnceChars?, Option.map_eq_none_iff.mp h]
  simp

theorem split_of_splitOnce?_eq_some {sep : Char} {s before after : String}
    (h : splitOnce? sep s = some (before, after)) :
    split sep s = before :: split sep after := by
  obtain ⟨⟨cs, rest⟩, honce, hparts⟩ := Option.map_eq_some_iff.mp h
  cases hparts
  rw [split, splitChars_eq_splitOnceChars?, honce]
  simp [split]

/-- Joining the pieces of a text gives it back. -/
theorem join_split (sep : Char) (s : String) : join sep (split sep s) = s := by
  simp [join, split, Function.comp_def, joinChars_splitChars]

end JsonSql.Text
