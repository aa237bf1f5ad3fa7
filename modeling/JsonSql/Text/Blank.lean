set_option autoImplicit false

/-!
# Blanks

The characters with the Unicode property `White_Space`, and trimming: a text without the blanks at
its two ends.
-/

namespace JsonSql.Text

/-- A character with the property `White_Space`. -/
def isBlank (c : Char) : Bool :=
  let n := c.toNat
  (9 ≤ n && n ≤ 13) || n = 0x20 || n = 0x85 || n = 0xA0 || n = 0x1680 ||
    (0x2000 ≤ n && n ≤ 0x200A) || n = 0x2028 || n = 0x2029 || n = 0x202F || n = 0x205F || n = 0x3000

/-- The characters without the blanks at both ends. -/
def trimChars (cs : List Char) : List Char :=
  (((cs.dropWhile isBlank).reverse).dropWhile isBlank).reverse

/-- The text without the blanks at both ends. -/
def trim (s : String) : String :=
  String.ofList (trimChars s.toList)

theorem isBlank_of_isWhitespace {c : Char} (h : c.isWhitespace = true) : isBlank c = true := by
  simp only [Char.isWhitespace, Bool.or_eq_true, decide_eq_true_eq] at h
  rcases h with ((rfl | rfl) | rfl) | rfl <;> decide

theorem isBlank_of_isDigit {c : Char} (h : c.isDigit = true) : isBlank c = false := by
  simp only [Char.isDigit, Bool.and_eq_true, decide_eq_true_eq] at h
  have hlow : 48 ≤ c.toNat := h.1
  have hhigh : c.toNat ≤ 57 := h.2
  simp only [isBlank, Bool.or_eq_false_iff, Bool.and_eq_false_iff, decide_eq_false_iff_not]
  omega

@[simp] theorem trimChars_nil : trimChars [] = [] := rfl

/-- Characters that neither begin nor end with a blank are left alone. -/
theorem trimChars_eq_self {cs : List Char} (first : ∀ c ∈ cs.head?, isBlank c = false)
    (last : ∀ c ∈ cs.getLast?, isBlank c = false) : trimChars cs = cs := by
  cases cs with
  | nil => rfl
  | cons c cs =>
    have keep : (c :: cs).dropWhile isBlank = c :: cs := by
      simp [List.dropWhile, first c (by simp)]
    have keepBack : ((c :: cs).reverse).dropWhile isBlank = (c :: cs).reverse := by
      cases back : (c :: cs).reverse with
      | nil => rfl
      | cons d ds =>
        have ends : (c :: cs).getLast? = some d := by
          rw [← List.head?_reverse, back]; rfl
        simp [List.dropWhile, last d (by simp [ends])]
    rw [trimChars, keep, keepBack, List.reverse_reverse]

theorem getLast?_dropWhile_isBlank {cs : List Char} (h : ∀ c ∈ cs.getLast?, isBlank c = false) :
    ∀ c ∈ (cs.dropWhile isBlank).getLast?, isBlank c = false := by
  intro c hc
  obtain ⟨before, hbefore⟩ := (List.dropWhile_suffix isBlank : cs.dropWhile isBlank <:+ cs)
  refine h c ?_
  rw [← hbefore, List.getLast?_append, Option.mem_def.mp hc, Option.some_or]
  rfl

/-- Trimmed characters neither begin nor end with a blank. -/
theorem trimChars_trimChars (cs : List Char) : trimChars (trimChars cs) = trimChars cs := by
  have hfirst (cs : List Char) : ∀ c ∈ (cs.dropWhile isBlank).head?, isBlank c = false := by
    intro c hc
    have := List.head?_dropWhile_not isBlank cs
    rw [Option.mem_def.mp hc] at this
    simpa using this
  refine trimChars_eq_self ?_ ?_
  · rw [trimChars, List.head?_reverse]
    refine getLast?_dropWhile_isBlank ?_
    rw [List.getLast?_reverse]
    exact hfirst cs
  · rw [trimChars, List.getLast?_reverse]
    exact hfirst _

@[simp] theorem trim_trim (s : String) : trim (trim s) = trim s := by
  rw [trim, trim, String.toList_ofList, trimChars_trimChars]

end JsonSql.Text
