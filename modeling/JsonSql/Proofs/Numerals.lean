import JsonSql.Proofs.Legible

set_option autoImplicit false

/-!
# Written numbers are numerals

Integers and finite numbers are written as numerals, with a minus in front of a negative one.
-/

namespace JsonSql.Sql

open JsonSql.Decimal

/-! ## Natural numbers -/

theorem natText_toList (n : Nat) : (toString n).toList = Nat.toDigits 10 n := by
  simp [Nat.repr_eq_ofList_toDigits, toString]

theorem isDigit_of_mem_natText {n : Nat} {c : Char} (h : c ∈ (toString n).toList) :
    c.isDigit = true := by
  rw [natText_toList] at h
  exact Nat.isDigit_of_mem_toDigits (by decide) (by decide) h

theorem negText_toList (n : Nat) :
    (toString (Int.negSucc n)).toList = '-' :: (toString (n + 1)).toList := by
  show ("-" ++ toString (n + 1)).toList = _
  simp

theorem natText_ne_nil (n : Nat) : (toString n).toList ≠ [] := by
  rw [natText_toList]
  exact Nat.toDigits_ne_nil

theorem isDigit_of_mem_zeros {n : Nat} {c : Char} (h : c ∈ (zeros n).toList) :
    c.isDigit = true := by
  rw [zeros, String.toList_ofList] at h
  rw [List.eq_of_mem_replicate h]
  decide

theorem IsNumeral.ofDigits {ds : List Char} (hne : ds ≠ [])
    (hds : ∀ c ∈ ds, c.isDigit = true) : IsNumeral ds := by
  have := IsNumeral.mk hne hds .none .none
  rwa [List.append_nil, List.append_nil] at this

/-- A text of digits, which can be computed. -/
theorem IsNumeral.ofAll {ds : List Char} (h : (!ds.isEmpty && ds.all Char.isDigit) = true) :
    IsNumeral ds := by
  rw [Bool.and_eq_true] at h
  exact .ofDigits (by simpa using h.1) (List.all_eq_true.mp h.2)

theorem isNumeral_natText (n : Nat) : IsNumeral (toString n).toList :=
  .ofDigits (natText_ne_nil n) fun _ => isDigit_of_mem_natText

/-! ## Decimals -/

/-- Digits with digits behind a point. -/
theorem isNumeral_point {whole part : List Char} (hne : whole ≠ [])
    (hwhole : ∀ c ∈ whole, c.isDigit = true) (hpart : part ≠ [])
    (hdigits : ∀ c ∈ part, c.isDigit = true) : IsNumeral (whole ++ '.' :: part) := by
  have := IsNumeral.mk hne hwhole (.some hpart hdigits) .none
  rwa [List.append_nil] at this

theorem isNumeral_positionalText (d : Digits) :
    IsNumeral (positionalText .sql d).toList := by
  have hne := natText_ne_nil d.digits
  have hdigits : ∀ c ∈ (toString d.digits).toList, c.isDigit = true := by
    intro _
    exact isDigit_of_mem_natText
  have hzeros : ∀ n, ∀ c ∈ (zeros n).toList, c.isDigit = true := by
    intro _ _
    exact isDigit_of_mem_zeros
  unfold positionalText
  dsimp only
  split
  · -- a whole number, with zeros behind it
    have heq : (toString d.digits ++ zeros d.power.toNat ++ Layout.sql.whole).toList =
        ((toString d.digits).toList ++ (zeros d.power.toNat).toList) ++ '.' :: ['0'] := by
      simp [Layout.sql]
    rw [heq]
    have hwhole := List.forall_mem_append.mpr ⟨hdigits, hzeros d.power.toNat⟩
    exact isNumeral_point (by simp) hwhole (by simp) (by simp)
  · next hpower =>
    split
    · -- less than one, with zeros in front
      have heq : ("0." ++ zeros ((-d.power).toNat - (toString d.digits).length) ++
          toString d.digits).toList = ['0'] ++ '.' ::
            ((zeros ((-d.power).toNat - (toString d.digits).length)).toList ++
              (toString d.digits).toList) := by
        simp
      rw [heq]
      exact isNumeral_point (by simp) (by simp) (by simp)
        (List.forall_mem_append.mpr ⟨hzeros _, hdigits⟩)
    · next hlength =>
      have hpos : 0 < (-d.power).toNat := by omega
      have hmore : (-d.power).toNat < (toString d.digits).toList.length := by
        rw [String.length_toList]
        omega
      have heq : ∀ whole part : List Char,
          (String.ofList whole ++ "." ++ String.ofList part).toList = whole ++ '.' :: part := by
        simp
      rw [heq]
      refine isNumeral_point ?_ (fun c hc => hdigits c (List.mem_of_mem_take hc)) ?_
        (fun c hc => hdigits c (List.mem_of_mem_drop hc))
      · intro hnil
        rcases List.take_eq_nil_iff.mp hnil with hzero | hempty
        · omega
        · exact hne hempty
      · intro hnil
        have hle := List.drop_eq_nil_iff.mp hnil
        omega

theorem isPower_intText (n : Int) : IsPower ('e' :: (toString n).toList) := by
  cases n with
  | ofNat n => exact .plain (natText_ne_nil n) fun _ => isDigit_of_mem_natText
  | negSucc n =>
    rw [negText_toList]
    exact .negative (natText_ne_nil _) fun _ => isDigit_of_mem_natText

theorem isNumeral_scientificText (d : Digits) :
    IsNumeral (scientificText .sql d).toList := by
  have hne := natText_ne_nil d.digits
  have hdigits : ∀ c ∈ (toString d.digits).toList, c.isDigit = true := by
    intro _
    exact isDigit_of_mem_natText
  unfold scientificText
  dsimp only
  generalize (toString d.digits).toList = cs at hne hdigits
  generalize d.power + cs.length - 1 = power
  have hpower := isPower_intText power
  have hsign : (if 0 < power then Layout.sql.plus else "") = "" := by
    split <;> rfl
  rw [hsign]
  cases cs with
  | nil => contradiction
  | cons first rest =>
    cases rest with
    | nil =>
      have := IsNumeral.mk (List.cons_ne_nil first []) hdigits .none hpower
      simpa using this
    | cons second more =>
      have hpart := IsFraction.some (List.cons_ne_nil second more)
        fun c hc => hdigits c (List.mem_cons_of_mem _ hc)
      have := IsNumeral.mk (List.cons_ne_nil first [])
        (fun c hc => hdigits c (by rw [List.mem_singleton.mp hc]; exact List.mem_cons_self))
        hpart hpower
      simpa using this

theorem Digits.isNumeral_text (d : Digits) : IsNumeral (d.text .sql).toList := by
  unfold Digits.text Layout.sql
  dsimp only
  split
  · exact isNumeral_positionalText d
  · exact isNumeral_scientificText d

/-! ## Signed numbers -/

/-- A numeral, with a minus in front of it or without. -/
inductive IsSigned : List Char → Prop
  | plain {cs : List Char} : IsNumeral cs → IsSigned cs
  | negative {cs : List Char} : IsNumeral cs → IsSigned ('-' :: cs)

theorem isSigned_intText (n : Int) : IsSigned (toString n).toList := by
  cases n with
  | ofNat n => exact .plain (isNumeral_natText n)
  | negSucc n =>
    rw [negText_toList]
    exact .negative (isNumeral_natText _)

theorem isSigned_finiteText (x : Finite64) : IsSigned (x.text .sql).toList := by
  have hmagnitude : IsNumeral
      (if x.isZero then "0" ++ Layout.sql.whole
        else (shortest Layout.sql.tie x).text .sql).toList := by
    split
    · have hzero : IsNumeral (['0'] ++ '.' :: ['0']) :=
        isNumeral_point (by simp) (by simp) (by simp) (by simp)
      exact hzero
    · exact Digits.isNumeral_text _
  unfold Finite64.text
  cases x.negative with
  | false =>
    rw [if_neg (by decide), String.empty_append]
    exact .plain hmagnitude
  | true =>
    rw [if_pos rfl, String.toList_append]
    exact .negative hmagnitude

end JsonSql.Sql
