set_option autoImplicit false

/-!
# Hexadecimal digits

Digits in either case, and the numbers that they denote.
-/

namespace JsonSql

/-- The value of a hexadecimal digit. -/
def hexValue? (c : Char) : Option Nat :=
  if '0' ≤ c && c ≤ '9' then some (c.toNat - 48)
  else if 'a' ≤ c && c ≤ 'f' then some (c.toNat - 87)
  else if 'A' ≤ c && c ≤ 'F' then some (c.toNat - 55)
  else none

/-- A hexadecimal digit. -/
def isHexDigit (c : Char) : Bool := (hexValue? c).isSome

/-- The number that hexadecimal digits denote. -/
def hexNumber? (ds : List Char) : Option Nat :=
  ds.foldlM (fun n d => (hexValue? d).map (16 * n + ·)) 0

theorem hexValue?_lt {c : Char} {n : Nat} (h : hexValue? c = some n) : n < 16 := by
  have order : ∀ {a b : Char}, a ≤ b → a.toNat ≤ b.toNat := fun h => h
  unfold hexValue? at h
  split at h
  · next digit =>
    simp only [Bool.and_eq_true, decide_eq_true_eq] at digit
    have := order digit.2
    simp at this h
    omega
  · split at h
    · next letter =>
      simp only [Bool.and_eq_true, decide_eq_true_eq] at letter
      have := order letter.2
      simp at this h
      omega
    · split at h
      · next letter =>
        simp only [Bool.and_eq_true, decide_eq_true_eq] at letter
        have := order letter.2
        simp at this h
        omega
      · simp at h

end JsonSql
