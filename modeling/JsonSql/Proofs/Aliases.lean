import JsonSql.Statement.Alias
import Mathlib.Logic.Function.Basic

set_option autoImplicit false

/-!
# No alias is issued twice

Sequential aliases differ in their numbers.  A random alias is a free word: none that was issued
before, and words that are longer than all of those are free, so the search for one ends.
-/

namespace JsonSql

namespace Alias

theorem sequential_injective : Function.Injective sequential := by
  intro j k h
  have hdigits : Nat.toDigits 10 (j + 1) = Nat.toDigits 10 (k + 1) := by
    have htexts := congrArg String.toList h
    simpa [sequential, Nat.toString_eq_ofList_toDigits] using htexts
  have hnumber := congrArg (fun ds => Nat.ofDigitChars 10 ds 0) hdigits
  simp only [Nat.ofDigitChars_ten_toDigits] at hnumber
  omega

/-- A name that starts with another letter is no sequential alias. -/
theorem sequential_ne {name : String} (h : name.toList.head? ≠ some 'j') (k : Nat) :
    sequential k ≠ name := by
  rintro rfl
  exact h (by simp [sequential])

/-! ## Random aliases -/

theorem length_word (letters : Letters) (start length : Nat) :
    (word letters start length).length = length := by
  simp [word]

/-- What is found among the words of one length is free. -/
theorem isFree_of_firstFree {letters : Letters} {isFree : String → Bool} {length : Nat}
    {name : String} :
    ∀ {tries used used' : Nat},
      firstFree letters isFree length tries used = (some name, used') → isFree name = true := by
  intro tries
  induction tries with
  | zero =>
    intro used used' h
    cases h
  | succ tries ih =>
    intro used used' h
    rw [firstFree] at h
    split at h
    · next hfree =>
      cases h
      exact hfree
    · exact ih h

/-- A drawn word is free if all words of the greatest length are. -/
theorem isFree_draw {letters : Letters} {isFree : String → Bool} {longest : Nat}
    (hlong : ∀ name : String, name.length = longest → isFree name = true) :
    ∀ {wider length used : Nat}, length + wider = longest →
      isFree (draw letters isFree wider length used).1 = true := by
  intro wider
  induction wider with
  | zero =>
    intro length used hlength
    exact hlong _ ((length_word letters used length).trans hlength)
  | succ wider ih =>
    intro length used hlength
    rw [draw]
    split
    · next hfound => exact isFree_of_firstFree hfound
    · exact ih (by omega)

theorem length_le_foldl_max {words : List String} {name : String} (h : name ∈ words)
    (start : Nat) : name.length ≤ words.foldl (fun longest w => max longest w.length) start := by
  have grows : ∀ (words : List String) (start : Nat),
      start ≤ words.foldl (fun longest w => max longest w.length) start := by
    intro words
    induction words with
    | nil => exact fun start => Nat.le_refl start
    | cons w rest ih => exact fun start => Nat.le_trans (Nat.le_max_left _ _) (ih _)
  induction words generalizing start with
  | nil => cases h
  | cons w rest ih =>
    rcases List.mem_cons.mp h with rfl | h
    · exact Nat.le_trans (Nat.le_max_right _ _) (grows rest _)
    · exact ih h _

/-- A word that is longer than all that are taken is free. -/
theorem Source.isFree_of_longestTaken_lt (s : Source) {name : String}
    (h : s.longestTaken < name.length) : s.isFree name = true := by
  have hnew : name ∉ reserved ++ s.issued := fun hmem =>
    absurd (length_le_foldl_max hmem 0) (Nat.not_le.mpr h)
  rw [List.mem_append, not_or] at hnew
  simp [isFree, hnew]

theorem Source.isFree_next (letters : Letters) (s : Source) :
    s.isFree (s.next letters).1 = true := by
  have hlong (name : String)
      (hname : name.length = s.length + (s.longestTaken + 1 - s.length)) :
      s.isFree name = true := s.isFree_of_longestTaken_lt (by omega)
  have hdraw {used : Nat} :
      s.isFree (draw letters s.isFree (s.longestTaken + 1 - s.length) s.length used).1 = true :=
    isFree_draw hlong rfl
  exact hdraw

theorem random_notMem_issued (letters : Letters) (length k : Nat) :
    random letters length k ∉ (Source.after letters length k).issued := by
  have h := (Source.after letters length k).isFree_next letters
  simp only [Source.isFree, Bool.and_eq_true, Bool.not_eq_true'] at h
  simpa [random] using h.2

/-- A source remembers what it has issued. -/
theorem random_mem_issued {letters : Letters} {length j k : Nat} (h : j < k) :
    random letters length j ∈ (Source.after letters length k).issued := by
  induction k with
  | zero => cases h
  | succ k ih =>
    have hissued : (Source.after letters length (k + 1)).issued =
        random letters length k :: (Source.after letters length k).issued := rfl
    rw [hissued]
    rcases Nat.lt_succ_iff_lt_or_eq.mp h with hlt | rfl
    · exact List.mem_cons_of_mem _ (ih hlt)
    · exact List.mem_cons_self

theorem random_injective (letters : Letters) (length : Nat) :
    Function.Injective (random letters length) := by
  intro j k h
  rcases Nat.lt_trichotomy j k with hlt | heq | hgt
  · exact absurd (h ▸ random_mem_issued hlt) (random_notMem_issued letters length k)
  · exact heq
  · exact absurd (h ▸ random_mem_issued hgt) (random_notMem_issued letters length j)

theorem exists_word_of_firstFree {letters : Letters} {isFree : String → Bool} {length : Nat}
    {name : String} :
    ∀ {tries used used' : Nat}, firstFree letters isFree length tries used = (some name, used') →
      ∃ start, name = word letters start length := by
  intro tries
  induction tries with
  | zero =>
    intro used used' h
    cases h
  | succ tries ih =>
    intro used used' h
    rw [firstFree] at h
    split at h
    · cases h
      exact ⟨used, rfl⟩
    · exact ih h

theorem exists_word_of_draw (letters : Letters) (isFree : String → Bool) :
    ∀ wider length used : Nat, ∃ start n,
      (draw letters isFree wider length used).1 = word letters start n := by
  intro wider
  induction wider with
  | zero => exact fun length used => ⟨used, length, rfl⟩
  | succ wider ih =>
    intro length used
    rw [draw]
    split
    · next hfound =>
      obtain ⟨start, hname⟩ := exists_word_of_firstFree hfound
      exact ⟨start, length, hname⟩
    · exact ih _ _

/-- Random aliases are made of letters of the stream. -/
theorem exists_letter_of_mem_random {letters : Letters} {length k : Nat} {c : Char}
    (h : c ∈ (random letters length k).toList) : ∃ i, c = letter (letters i) := by
  obtain ⟨start, n, hword⟩ := exists_word_of_draw letters (Source.after letters length k).isFree
    ((Source.after letters length k).longestTaken + 1 - (Source.after letters length k).length)
    (Source.after letters length k).length (Source.after letters length k).used
  have hrandom : random letters length k = word letters start n := hword
  rw [hrandom, word, String.toList_ofList] at h
  obtain ⟨i, -, rfl⟩ := List.mem_map.mp h
  exact ⟨i, rfl⟩

/-- Whatever the style and the letters, no alias is issued twice. -/
theorem names_injective (style : AliasStyle) (length : Nat) (letters : Letters) :
    Function.Injective (names style length letters) := by
  cases style with
  | sequential => exact sequential_injective
  | random => exact random_injective letters length

end Alias

end JsonSql
