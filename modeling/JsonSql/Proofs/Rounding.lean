import JsonSql.Json.Number
import JsonSql.Proofs.ShortestDecimals

set_option autoImplicit false

/-!
# Rounding keeps the order

A greater ratio has no lesser word (`nearestWord_mono`), and a greater word is no lesser number.  A
quotient by a number that is at least one is finite therefore, and a product is if one of factors at
least as great is.
-/

namespace JsonSql.Decimal

variable {num den num' den' : Nat}

/-! ## Whole numbers -/

theorem le_roundHalfEven (num den : Nat) : num / den ≤ roundHalfEven num den := by
  unfold roundHalfEven
  dsimp only
  split
  · exact Nat.le_refl _
  · split <;> omega

theorem roundHalfEven_le (num den : Nat) : roundHalfEven num den ≤ num / den + 1 := by
  unfold roundHalfEven
  dsimp only
  split
  · omega
  · split <;> omega

theorem div_mono (hden : 0 < den) (hden' : 0 < den') (h : num * den' ≤ num' * den) :
    num / den ≤ num' / den' := by
  rw [Nat.le_div_iff_mul_le hden']
  refine Nat.le_of_mul_le_mul_right ?_ hden
  calc num / den * den' * den = num / den * den * den' := Nat.mul_right_comm _ _ _
    _ ≤ num * den' := Nat.mul_le_mul_right _ (Nat.div_mul_le_self num den)
    _ ≤ num' * den := h

theorem roundHalfEven_mono (hden : 0 < den) (hden' : 0 < den') (h : num * den' ≤ num' * den) :
    roundHalfEven num den ≤ roundHalfEven num' den' := by
  rcases Nat.lt_or_eq_of_le (div_mono hden hden' h) with hless | hsame
  · exact ((roundHalfEven_le num den).trans hless).trans (le_roundHalfEven num' den')
  · -- What is left over is compared, in parts of the product of the two divisors.
    have hrest : num % den * den' ≤ num' % den' * den := by
      have hsplit : num / den * den * den' + num % den * den' = num * den' := by
        rw [← Nat.add_mul, Nat.div_add_mod']
      have hsplit' : num / den * den * den' + num' % den' * den = num' * den := by
        rw [hsame, Nat.mul_right_comm, ← Nat.add_mul, Nat.div_add_mod']
      omega
    have hup : den < 2 * (num % den) → den' < 2 * (num' % den') := by
      intro hlt
      have hmul := Nat.mul_lt_mul_of_pos_right hlt hden'
      rw [Nat.mul_assoc] at hmul
      refine Nat.lt_of_mul_lt_mul_right (a := den) ?_
      rw [Nat.mul_assoc, Nat.mul_comm den']
      omega
    have hhalf : den ≤ 2 * (num % den) → den' ≤ 2 * (num' % den') := by
      intro hle
      have hmul := Nat.mul_le_mul_right den' hle
      rw [Nat.mul_assoc] at hmul
      refine Nat.le_of_mul_le_mul_right ?_ hden
      rw [Nat.mul_assoc, Nat.mul_comm den']
      omega
    have hparity : num' / den' % 2 ≤ 1 := Nat.le_of_lt_succ (Nat.mod_lt _ (by decide))
    unfold roundHalfEven
    dsimp only
    rw [hsame]
    split
    · exact le_roundHalfEven num' den'
    · next hnot =>
      rw [if_neg (Nat.not_lt.mpr (hhalf (Nat.not_lt.mp hnot)))]
      split
      · next hlt => rw [if_pos (hup hlt)]
      · split <;> omega

/-! ## Words -/

/-- Units that are halved until they fit 53 digits. -/
theorem roundHalfEven_halved_le (units den : Nat) :
    roundHalfEven units (den * 2 ^ ((units / den).log2 - 52)) ≤ 2 * fractionLimit := by
  generalize hh : (units / den).log2 - 52 = h
  have hlog : units / den < 2 ^ (53 + h) :=
    Nat.lt_of_lt_of_le Nat.lt_log2_self (Nat.pow_le_pow_right (by decide) (by omega))
  have hdiv : units / (den * 2 ^ h) < 2 ^ 53 := by
    rw [← Nat.div_div_eq_div_mul, Nat.div_lt_iff_lt_mul (Nat.two_pow_pos h), ← Nat.pow_add]
    exact hlog
  exact (roundHalfEven_le _ _).trans hdiv

/-- Units that have to be halved keep 53 digits. -/
theorem le_roundHalfEven_halved {units : Nat} (h : (units / den).log2 - 52 ≠ 0) :
    fractionLimit ≤ roundHalfEven units (den * 2 ^ ((units / den).log2 - 52)) := by
  have hne : units / den ≠ 0 := by
    intro hzero
    rw [hzero] at h
    exact h rfl
  have hlog := Nat.log2_self_le hne
  generalize hh : (units / den).log2 - 52 = k at h
  rw [show (units / den).log2 = 52 + k by omega, Nat.pow_add,
    ← Nat.le_div_iff_mul_le (Nat.two_pow_pos k), Nat.div_div_eq_div_mul] at hlog
  exact hlog.trans (le_roundHalfEven _ _)

/-- A greater ratio has no lesser word. -/
theorem nearestWord_mono (hden : 0 < den) (hden' : 0 < den') (h : num * den' ≤ num' * den) :
    nearestWord num den ≤ nearestWord num' den' := by
  unfold nearestWord
  dsimp only
  simp only [Nat.pow_eq]
  generalize 2 ^ 1074 = scale
  have hunits : num * scale * den' ≤ num' * scale * den := by
    rw [Nat.mul_right_comm, Nat.mul_right_comm num']
    exact Nat.mul_le_mul_right scale h
  generalize num * scale = units at hunits
  generalize num' * scale = units' at hunits
  have hlog : (units / den).log2 ≤ (units' / den').log2 := by
    rw [Nat.log2_eq_log_two, Nat.log2_eq_log_two]
    exact Nat.log_mono_right (div_mono hden hden' hunits)
  rcases Nat.lt_or_ge ((units / den).log2 - 52) ((units' / den').log2 - 52) with hless | hle
  · have hlow := roundHalfEven_halved_le units den
    have hhigh : fractionLimit ≤ roundHalfEven units' _ :=
      le_roundHalfEven_halved (by omega : (units' / den').log2 - 52 ≠ 0)
    have hmul := Nat.mul_le_mul_right fractionLimit (Nat.succ_le_of_lt hless)
    rw [Nat.succ_mul] at hmul
    omega
  · rw [show (units / den).log2 - 52 = (units' / den').log2 - 52 by omega]
    refine Nat.add_le_add_left (roundHalfEven_mono (Nat.mul_pos hden (Nat.two_pow_pos _))
      (Nat.mul_pos hden' (Nat.two_pow_pos _)) ?_) _
    rw [← Nat.mul_assoc, ← Nat.mul_assoc]
    exact Nat.mul_le_mul_right _ hunits

/-- What is rounded to a word that stands for a finite number is a number. -/
theorem exists_roundRatio_eq (negative : Bool) (h : nearestWord num den < wordLimit) :
    ∃ y, roundRatio negative num den = .finite y ∧ (y.word : Nat) = nearestWord num den ∧
      y.negative = negative := by
  rw [roundRatio, ofWord, dif_pos h]
  exact ⟨_, rfl, rfl, rfl⟩

/-- Integers of 64 bits are in reach of finite numbers. -/
theorem nearestWord_lt {n : Nat} (h : n < nat64Limit) : nearestWord n 1 < wordLimit := by
  have hlimit : nearestWord nat64Limit 1 < wordLimit := by decide +kernel
  refine Nat.lt_of_le_of_lt (nearestWord_mono Nat.one_pos Nat.one_pos ?_) hlimit
  rw [Nat.mul_one, Nat.mul_one]
  exact h.le

/-! ## Finite numbers -/

namespace Finite64

variable {x y : Finite64}

/-- The ratio of a number has its word. -/
theorem nearestWord_ratio (x : Finite64) : nearestWord x.ratio.1 x.ratio.2 = x.word := by
  obtain ⟨below, hbelow, hpositive, -, hpower, hquarters⟩ := x.quarters_eq
  refine nearestWord_of_near x.ratio_snd_pos ?_
  rw [ratio_eq, magnitude_eq]
  by_cases hzero : x.significand = 0
  · unfold Near
    rw [hquarters, hzero]
    rw [if_pos (by decide)]
    have hq := x.quarter_pos
    simp only [Nat.zero_sub, Nat.cast_zero, mul_zero, zero_mul]
    exact ⟨le_refl _, by positivity⟩
  · refine near_of_lt ?_ ?_
    · rw [hquarters]
      refine mul_lt_mul_of_pos_right ?_ x.quarter_pos
      exact_mod_cast (by omega : 4 * x.significand - below < 4 * x.significand)
    · rw [hquarters]
      refine mul_lt_mul_of_pos_right ?_ x.quarter_pos
      exact_mod_cast (by omega : 4 * x.significand < 4 * x.significand + 2)

/-- A greater word is no lesser number. -/
theorem ratio_le_of_word_le (h : (x.word : Nat) ≤ y.word) :
    x.ratio.1 * y.ratio.2 ≤ y.ratio.1 * x.ratio.2 := by
  by_contra hnot
  have hback := nearestWord_mono y.ratio_snd_pos x.ratio_snd_pos (Nat.le_of_not_le hnot)
  rw [nearestWord_ratio, nearestWord_ratio] at hback
  have hsame : x.ratio = y.ratio := by
    have hword : x.word = y.word := Fin.ext (Nat.le_antisymm h hback)
    unfold ratio significand scale exponentField fractionField
    rw [hword]
  rw [hsame] at hnot
  exact hnot (Nat.le_refl _)

/-- A quotient by a number that is at least one is finite. -/
theorem exists_div_eq (x : Finite64) (h : y.ratio.2 ≤ y.ratio.1) :
    ∃ z, x.div y = .finite z := by
  have hpos : 0 < y.ratio.1 := Nat.lt_of_lt_of_le y.ratio_snd_pos h
  have hword : nearestWord (x.ratio.1 * y.ratio.2) (x.ratio.2 * y.ratio.1) < wordLimit := by
    refine Nat.lt_of_le_of_lt ?_ x.word.isLt
    rw [← nearestWord_ratio]
    refine nearestWord_mono (Nat.mul_pos x.ratio_snd_pos hpos) x.ratio_snd_pos ?_
    rw [Nat.mul_assoc, Nat.mul_comm x.ratio.2]
    exact Nat.mul_le_mul_left _ (Nat.mul_le_mul_right _ h)
  obtain ⟨z, hz, -⟩ := exists_roundRatio_eq (x.negative != y.negative) hword
  exact ⟨z, hz⟩

/-- A product is finite if one of a greater factor is. -/
theorem exists_mul_eq {x' z' : Finite64} (hfinite : x'.mul y = .finite z')
    (h : (x.word : Nat) ≤ x'.word) : ∃ z, x.mul y = .finite z := by
  have hlimit : nearestWord (x'.ratio.1 * y.ratio.1) (x'.ratio.2 * y.ratio.2) < wordLimit := by
    by_contra hnot
    have hinfinite : x'.mul y = .infinite (x'.negative != y.negative) := dif_neg hnot
    rw [hinfinite] at hfinite
    cases hfinite
  have hword : nearestWord (x.ratio.1 * y.ratio.1) (x.ratio.2 * y.ratio.2) < wordLimit := by
    refine Nat.lt_of_le_of_lt (nearestWord_mono (Nat.mul_pos x.ratio_snd_pos y.ratio_snd_pos)
      (Nat.mul_pos x'.ratio_snd_pos y.ratio_snd_pos) ?_) hlimit
    have hmul := Nat.mul_le_mul_right (y.ratio.1 * y.ratio.2) (ratio_le_of_word_le h)
    calc x.ratio.1 * y.ratio.1 * (x'.ratio.2 * y.ratio.2)
        = x.ratio.1 * x'.ratio.2 * (y.ratio.1 * y.ratio.2) := by ring
      _ ≤ x'.ratio.1 * x.ratio.2 * (y.ratio.1 * y.ratio.2) := hmul
      _ = x'.ratio.1 * y.ratio.1 * (x.ratio.2 * y.ratio.2) := by ring
  obtain ⟨z, hz, -⟩ := exists_roundRatio_eq (x.negative != y.negative) hword
  exact ⟨z, hz⟩

end Finite64

end JsonSql.Decimal
