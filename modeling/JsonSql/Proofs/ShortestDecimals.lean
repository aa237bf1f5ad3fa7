import JsonSql.Proofs.NumeralValues
import Mathlib.Algebra.Order.Ring.Rat
import Mathlib.Data.Nat.Log
import Mathlib.Tactic.Linarith
import Mathlib.Tactic.NormNum

set_option autoImplicit false

/-!
# Shortest decimals read back

A finite number has an interval of numbers around it that are rounded to it (`Finite64.Near`), with
its ends if the number is even.  What lies in the interval has the word of the number as its nearest
word (`nearestWord_of_near`).  Grids of seventeen digits are so fine that one of the two neighbours
of the number on the grid lies in its interval, so the number has a shortest decimal, and its text
is read back as the number (`Finite64.readBinary64?_text`).
-/

namespace JsonSql.Decimal

/-! ## Intervals -/

namespace Finite64

variable {x : Finite64}

/-- A quarter of the unit of a number. -/
def quarter (x : Finite64) : ℚ := 2 ^ (x.scale - 2)

/-- A number without its sign. -/
def magnitude (x : Finite64) : ℚ := x.significand * 2 ^ x.scale

/-- A positive number is rounded to a number. -/
def Near (x : Finite64) (v : ℚ) : Prop :=
  if x.significand % 2 = 0 then
    (quarters x).1 * x.quarter ≤ v ∧ v ≤ (quarters x).2.2 * x.quarter
  else (quarters x).1 * x.quarter < v ∧ v < (quarters x).2.2 * x.quarter

theorem quarter_pos (x : Finite64) : 0 < x.quarter := zpow_pos (by norm_num) _

theorem magnitude_eq (x : Finite64) : x.magnitude = 4 * x.significand * x.quarter := by
  rw [magnitude, quarter, zpow_sub₀ (by norm_num)]
  norm_num
  ring

/-- Powers with exponents of both signs, without fractions. -/
theorem pow_toNat {t : ℚ} (ht : t ≠ 0) (p : Int) : t ^ p.toNat = t ^ p * t ^ (-p).toNat := by
  rcases le_total 0 p with h | h
  · have hzero : (-p).toNat = 0 := by omega
    rw [hzero, pow_zero, mul_one, ← zpow_natCast, Int.toNat_of_nonneg h]
  · have hzero : p.toNat = 0 := by omega
    rw [hzero, pow_zero, ← zpow_natCast, Int.toNat_of_nonneg (by omega), ← zpow_add₀ ht]
    simp

/-- A decimal in quarters of the unit of a number. -/
theorem inQuarters_eq (x : Finite64) (n : Nat) (power : Int) : ∃ k : ℚ, 0 < k ∧
    ((inQuarters x n power).1 : ℚ) = n * 10 ^ power * k ∧
      ((inQuarters x n power).2 : ℚ) = x.quarter * k := by
  refine ⟨10 ^ (-power).toNat * 2 ^ (-(x.scale - 2)).toNat, by positivity, ?_, ?_⟩
  · have hpow := pow_toNat (t := 10) (by norm_num) power
    unfold inQuarters
    simp only [Nat.pow_eq]
    push_cast
    rw [hpow]
    ring
  · have hpow := pow_toNat (t := 2) (by norm_num) (x.scale - 2)
    unfold inQuarters quarter
    simp only [Nat.pow_eq]
    push_cast
    rw [hpow]
    ring

theorem roundsTo_iff (x : Finite64) (n : Nat) (power : Int) :
    roundsTo x n power = true ↔ x.Near (n * 10 ^ power) := by
  obtain ⟨k, hk, ha, hb⟩ := inQuarters_eq x n power
  have hle (m : Nat) : m * (inQuarters x n power).2 ≤ (inQuarters x n power).1 ↔
      m * x.quarter ≤ n * 10 ^ power := by
    rw [← Nat.cast_le (α := ℚ), Nat.cast_mul, ha, hb, ← mul_assoc, mul_le_mul_iff_left₀ hk]
  have hge (m : Nat) : (inQuarters x n power).1 ≤ m * (inQuarters x n power).2 ↔
      n * 10 ^ power ≤ m * x.quarter := by
    rw [← Nat.cast_le (α := ℚ), Nat.cast_mul, ha, hb, ← mul_assoc, mul_le_mul_iff_left₀ hk]
  have hlt (m : Nat) : m * (inQuarters x n power).2 < (inQuarters x n power).1 ↔
      m * x.quarter < n * 10 ^ power := by
    rw [← not_le, hge, not_le]
  have hgt (m : Nat) : (inQuarters x n power).1 < m * (inQuarters x n power).2 ↔
      n * 10 ^ power < m * x.quarter := by
    rw [← not_le, hle, not_le]
  unfold roundsTo Near
  dsimp only
  split
  · rw [Bool.and_eq_true, decide_eq_true_eq, decide_eq_true_eq, hle, hge]
  · rw [Bool.and_eq_true, decide_eq_true_eq, decide_eq_true_eq, hlt, hgt]

end Finite64

/-! ## Nearest words -/

/-- What lies at most half a unit away from a number is rounded to it, if it is no tie or the number
is even. -/
theorem roundHalfEven_eq {num den n : Nat} (hden : 0 < den) (hlow : 2 * (n * den) ≤ 2 * num + den)
    (hhigh : 2 * num ≤ 2 * (n * den) + den)
    (heven : 2 * (n * den) = 2 * num + den ∨ 2 * num = 2 * (n * den) + den → n % 2 = 0) :
    roundHalfEven num den = n := by
  have hsplit : num / den * den + num % den = num := Nat.div_add_mod' num den
  have hmod := Nat.mod_lt num hden
  have hfloor : num / den ≤ n := by
    by_contra hnot
    have hmul := Nat.mul_le_mul_right den (Nat.succ_le_of_lt (Nat.not_le.mp hnot))
    rw [Nat.succ_mul] at hmul
    omega
  have hceil : n ≤ num / den + 1 := by
    by_contra hnot
    have hmul := Nat.mul_le_mul_right den (Nat.succ_le_of_lt (Nat.not_le.mp hnot))
    rw [Nat.succ_mul, Nat.add_mul] at hmul
    omega
  have hcases : n = num / den ∨ n = num / den + 1 := by omega
  unfold roundHalfEven
  dsimp only
  rcases hcases with rfl | rfl
  · split
    · rfl
    · have htie : 2 * (num % den) = den := by omega
      rw [if_neg (by omega), heven (by omega)]
      rfl
  · rw [Nat.add_mul] at hlow hhigh heven
    rw [if_neg (by omega)]
    split
    · rfl
    · have hodd := heven (by omega)
      omega

theorem log2_eq {n k : Nat} (hlow : 2 ^ k ≤ n) (hhigh : n < 2 ^ (k + 1)) : n.log2 = k := by
  have hne : n ≠ 0 := by
    rintro rfl
    exact absurd hlow (Nat.not_le.mpr (Nat.two_pow_pos k))
  have hle := (Nat.le_log2 hne).mpr hlow
  have hlt := (Nat.log2_lt hne).mpr hhigh
  omega

/-- How often units are halved until they fit 53 digits. -/
theorem halvings_eq {units den h : Nat} (hden : 0 < den) (hhigh : units < 2 ^ (53 + h) * den)
    (hlow : h = 0 ∨ 2 ^ (52 + h) * den ≤ units) : (units / den).log2 - 52 = h := by
  have hlt : units / den < 2 ^ (53 + h) := (Nat.div_lt_iff_lt_mul hden).mpr hhigh
  rcases hlow with rfl | hlow
  · by_cases hzero : units / den = 0
    · rw [hzero]
      rfl
    · have := (Nat.log2_lt hzero).mpr hlt
      omega
  · have hle := (Nat.le_div_iff_mul_le hden).mpr hlow
    have heq : (units / den).log2 = 52 + h :=
      log2_eq hle (by rwa [show 52 + h + 1 = 53 + h by omega])
    omega

/-- The word of units that lie close to a significand with halvings. -/
theorem word_eq {units den s h : Nat} (hden : 0 < den) (hs : s < 2 * fractionLimit)
    (hlow : 2 * (s * (den * 2 ^ h)) ≤ 2 * units + den * 2 ^ h)
    (hlow' : s = fractionLimit → h ≠ 0 → 4 * (s * (den * 2 ^ h)) ≤ 4 * units + den * 2 ^ h)
    (hhigh : 2 * units ≤ 2 * (s * (den * 2 ^ h)) + den * 2 ^ h)
    (heven : 2 * (s * (den * 2 ^ h)) = 2 * units + den * 2 ^ h ∨
      2 * units = 2 * (s * (den * 2 ^ h)) + den * 2 ^ h → s % 2 = 0)
    (hnormal : h ≠ 0 → fractionLimit ≤ s) :
    ((units / den).log2 - 52) * fractionLimit +
        roundHalfEven units (den * Nat.pow 2 ((units / den).log2 - 52)) =
      h * fractionLimit + s := by
  have hlimit : fractionLimit = 2 ^ 52 := rfl
  have hunit : 0 < den * 2 ^ h := Nat.mul_pos hden (Nat.two_pow_pos h)
  have habove : units < 2 ^ 53 * (den * 2 ^ h) := by
    have hmul := Nat.mul_le_mul_right (den * 2 ^ h) (show s + 1 ≤ 2 ^ 53 by omega)
    rw [Nat.succ_mul] at hmul
    omega
  have hhigh' : units < 2 ^ (53 + h) * den := by
    rwa [Nat.pow_add, Nat.mul_assoc, Nat.mul_comm (2 ^ h)]
  by_cases hbelow : h = 0 ∨ 2 ^ 52 * (den * 2 ^ h) ≤ units
  · have hlow'' : h = 0 ∨ 2 ^ (52 + h) * den ≤ units :=
      hbelow.imp_right fun hle => by rwa [Nat.pow_add, Nat.mul_assoc, Nat.mul_comm (2 ^ h)]
    rw [halvings_eq hden hhigh' hlow'']
    exact congrArg (h * fractionLimit + ·) (roundHalfEven_eq hunit hlow hhigh heven)
  · -- The number is a power of two, and the units lie below it, where numbers are twice as close.
    obtain ⟨hne, hlt⟩ := not_or.mp hbelow
    have hs' : s = 2 ^ 52 := by
      by_contra hnot
      have hmul := Nat.mul_le_mul_right (den * 2 ^ h)
        (show 2 ^ 52 + 1 ≤ s by have := hnormal hne; omega)
      rw [Nat.succ_mul] at hmul
      omega
    obtain ⟨k, rfl⟩ := Nat.exists_eq_succ_of_ne_zero hne
    have hdouble : den * 2 ^ (k + 1) = 2 * (den * 2 ^ k) := by
      rw [Nat.pow_succ]
      ring
    have hpos : 0 < den * 2 ^ k := Nat.mul_pos hden (Nat.two_pow_pos k)
    have hnear := hlow' (hs'.trans hlimit.symm) hne
    rw [hs', hdouble] at hnear
    rw [hdouble] at hlt
    have hclose : 2 * (2 ^ 53 * (den * 2 ^ k)) ≤ 2 * units + den * 2 ^ k := by omega
    have hhalvings : (units / den).log2 - 52 = k := by
      refine halvings_eq hden ?_ (.inr ?_)
      · rw [Nat.pow_add, Nat.mul_assoc, Nat.mul_comm (2 ^ k)]
        omega
      · rw [Nat.pow_add, Nat.mul_assoc, Nat.mul_comm (2 ^ k)]
        omega
    have hround : roundHalfEven units (den * 2 ^ k) = 2 ^ 53 :=
      roundHalfEven_eq hpos hclose (by omega) fun _ => rfl
    rw [hhalvings]
    refine (congrArg (k * fractionLimit + ·) hround).trans ?_
    rw [hs', hlimit, Nat.succ_mul]
    omega

namespace Finite64

variable {x : Finite64}

/-- How often the significand of a number is doubled to count the least positive number. -/
def doublings (x : Finite64) : Nat := max x.exponentField 1 - 1

theorem scale_eq (x : Finite64) : x.scale = x.doublings - 1074 := by
  unfold scale doublings
  omega

theorem fractionField_lt (x : Finite64) : x.fractionField < fractionLimit :=
  Nat.mod_lt _ (by decide)

theorem significand_lt (x : Finite64) : x.significand < 2 * fractionLimit := by
  have hfraction := x.fractionField_lt
  unfold significand
  split <;> omega

theorem le_significand (h : x.doublings ≠ 0) : fractionLimit ≤ x.significand := by
  unfold doublings at h
  unfold significand
  rw [if_neg (by omega)]
  omega

theorem word_eq_doublings (x : Finite64) :
    (x.word : Nat) = x.doublings * fractionLimit + x.significand := by
  have hsplit : x.exponentField * fractionLimit + x.fractionField = x.word := Nat.div_add_mod' _ _
  unfold doublings significand
  split
  · next hzero =>
    rw [hzero, Nat.zero_mul] at hsplit
    rw [hzero, Nat.max_eq_right (by decide), Nat.zero_mul]
    exact hsplit.symm
  · next hne =>
    obtain ⟨e, he⟩ := Nat.exists_eq_succ_of_ne_zero hne
    rw [he, Nat.succ_mul] at hsplit
    rw [he, Nat.max_eq_left (by omega), Nat.succ_sub_one]
    omega

/-- The ends of the interval of a number are half a unit away, but below a power of two a quarter of
one. -/
theorem quarters_eq (x : Finite64) : ∃ below, below ≤ 2 ∧ 0 < below ∧
    (x.significand = fractionLimit → x.doublings ≠ 0 → below = 1) ∧
    (below = 1 → x.significand = fractionLimit) ∧
    quarters x = (4 * x.significand - below, 4 * x.significand, 4 * x.significand + 2) := by
  refine ⟨if x.fractionField = 0 && decide (1 < x.exponentField) then 1 else 2, ?_, ?_, ?_, ?_, rfl⟩
  · split <;> decide
  · split <;> decide
  · intro hs hne
    unfold doublings at hne
    have hpositive : ¬x.exponentField = 0 := by omega
    rw [significand, if_neg hpositive] at hs
    have hfraction : x.fractionField = 0 := by omega
    have hmore : 1 < x.exponentField := by omega
    rw [if_pos (by simp [hfraction, hmore])]
  · intro h
    by_cases hcase : x.fractionField = 0 ∧ 1 < x.exponentField
    · rw [significand, if_neg (by omega), hcase.1, Nat.add_zero]
    · rw [if_neg (by simpa using hcase)] at h
      cases h

/-- How many times the least positive number goes into one. -/
@[irreducible] def unitsOfOne : Nat := Nat.pow 2 1074

theorem unitsOfOne_pos : 0 < unitsOfOne := by
  unfold unitsOfOne
  exact Nat.two_pow_pos 1074

theorem cast_unitsOfOne : (unitsOfOne : ℚ) = 2 ^ ((1074 : Nat) : Int) := by
  have hcast (n : Nat) : ((Nat.pow 2 n : Nat) : ℚ) = 2 ^ (n : Int) := by
    rw [Nat.pow_eq, Nat.cast_pow, zpow_natCast, Nat.cast_ofNat]
  unfold unitsOfOne
  exact hcast 1074

/-- A quarter of a unit, counted by the least positive number. -/
theorem quarter_eq (x : Finite64) : x.quarter * (4 * unitsOfOne) = 2 ^ x.doublings := by
  have hfour : (4 : ℚ) = 2 ^ (2 : Int) := by norm_num
  rw [quarter, scale_eq, cast_unitsOfOne, hfour, ← zpow_natCast 2 x.doublings,
    ← zpow_add₀ (by norm_num), ← zpow_add₀ (by norm_num)]
  congr 1
  omega

section

variable {num den : Nat} (hden : 0 < den) (k : Nat)
include hden

theorem le_ratio_iff (x : Finite64) :
    k * x.quarter ≤ (num / den : ℚ) ↔
      k * (den * 2 ^ x.doublings) ≤ 4 * (num * unitsOfOne) := by
  have hden' : (0 : ℚ) < den := Nat.cast_pos.mpr hden
  have hunit : (0 : ℚ) < 4 * unitsOfOne :=
    mul_pos (by norm_num) (Nat.cast_pos.mpr unitsOfOne_pos)
  have hleft : (k * x.quarter * den) * (4 * unitsOfOne) = k * (den * 2 ^ x.doublings) := by
    rw [← quarter_eq]
    ring
  rw [le_div_iff₀ hden', ← mul_le_mul_iff_left₀ hunit, hleft, ← Nat.cast_le (α := ℚ)]
  simp only [Nat.cast_mul, Nat.cast_pow, Nat.cast_ofNat]
  rw [mul_left_comm (num : ℚ)]

theorem ratio_le_iff (x : Finite64) :
    (num / den : ℚ) ≤ k * x.quarter ↔
      4 * (num * unitsOfOne) ≤ k * (den * 2 ^ x.doublings) := by
  have hden' : (0 : ℚ) < den := Nat.cast_pos.mpr hden
  have hunit : (0 : ℚ) < 4 * unitsOfOne :=
    mul_pos (by norm_num) (Nat.cast_pos.mpr unitsOfOne_pos)
  have hleft : (k * x.quarter * den) * (4 * unitsOfOne) = k * (den * 2 ^ x.doublings) := by
    rw [← quarter_eq]
    ring
  rw [div_le_iff₀ hden', ← mul_le_mul_iff_left₀ hunit, hleft, ← Nat.cast_le (α := ℚ)]
  simp only [Nat.cast_mul, Nat.cast_pow, Nat.cast_ofNat]
  rw [mul_left_comm (num : ℚ)]

end

/-- What lies in the interval of a number has the word of the number as its nearest one. -/
theorem nearestWord_of_near {num den : Nat} (hden : 0 < den) (h : x.Near (num / den)) :
    nearestWord num den = x.word := by
  obtain ⟨below, hbelow, hpositive, hpower, -, hquarters⟩ := x.quarters_eq
  have hsub : (4 * x.significand - below) * (den * 2 ^ x.doublings) =
      4 * (x.significand * (den * 2 ^ x.doublings)) - below * (den * 2 ^ x.doublings) := by
    rw [Nat.sub_mul, Nat.mul_assoc]
  have hadd : (4 * x.significand + 2) * (den * 2 ^ x.doublings) =
      4 * (x.significand * (den * 2 ^ x.doublings)) + 2 * (den * 2 ^ x.doublings) := by
    rw [Nat.add_mul, Nat.mul_assoc]
  have hends : (4 * x.significand - below) * (den * 2 ^ x.doublings) ≤ 4 * (num * unitsOfOne) ∧
      4 * (num * unitsOfOne) ≤ (4 * x.significand + 2) * (den * 2 ^ x.doublings) ∧
      (x.significand % 2 ≠ 0 →
        (4 * x.significand - below) * (den * 2 ^ x.doublings) < 4 * (num * unitsOfOne) ∧
        4 * (num * unitsOfOne) < (4 * x.significand + 2) * (den * 2 ^ x.doublings)) := by
    unfold Near at h
    rw [hquarters] at h
    dsimp only at h
    split at h
    · next heven =>
      exact ⟨(x.le_ratio_iff hden _).mp h.1, (x.ratio_le_iff hden _).mp h.2, absurd heven⟩
    · have hlow := (not_congr (x.ratio_le_iff hden _)).mp (not_le.mpr h.1)
      have hhigh := (not_congr (x.le_ratio_iff hden _)).mp (not_le.mpr h.2)
      exact ⟨by omega, by omega, fun _ => ⟨by omega, by omega⟩⟩
  have hdef : nearestWord num den = ((num * unitsOfOne / den).log2 - 52) * fractionLimit +
      roundHalfEven (num * unitsOfOne)
        (den * Nat.pow 2 ((num * unitsOfOne / den).log2 - 52)) := by
    unfold unitsOfOne
    rfl
  rw [hdef, x.word_eq_doublings]
  generalize num * unitsOfOne = units at hends
  obtain ⟨hlow, hhigh, hodd⟩ := hends
  rw [hsub] at hlow hodd
  rw [hadd] at hhigh hodd
  have hle := Nat.mul_le_mul_right (den * 2 ^ x.doublings) hbelow
  refine word_eq hden x.significand_lt (by omega) (fun hs hne => ?_) (by omega) (fun htie => ?_)
    fun hne => le_significand hne
  · rw [hpower hs hne] at hlow
    omega
  · by_contra hne
    have hends := hodd hne
    have hpos := Nat.mul_le_mul_right (den * 2 ^ x.doublings) hpositive
    omega

theorem near_of_lt {v : ℚ} (hlow : (quarters x).1 * x.quarter < v)
    (hhigh : v < (quarters x).2.2 * x.quarter) : x.Near v := by
  unfold Near
  split
  · exact ⟨hlow.le, hhigh.le⟩
  · exact ⟨hlow, hhigh⟩

theorem significand_pos (h : x.isZero = false) : 0 < x.significand := by
  have hword := x.word_eq_doublings
  have hne : (x.word : Nat) ≠ 0 := of_decide_eq_false h
  unfold significand
  split
  · next hzero =>
    unfold doublings significand at hword
    rw [hzero, if_pos rfl, Nat.max_eq_right (by decide), Nat.sub_self, Nat.zero_mul] at hword
    omega
  · unfold fractionLimit
    omega

/-- One of the two neighbours on a fine grid lies in the interval of a number. -/
theorem near_or_near (h : x.isZero = false) {step : ℚ} {n : Nat}
    (hfine : step * 10 ^ 16 ≤ x.magnitude) (hfloor : n * step ≤ x.magnitude)
    (hceil : x.magnitude < (n + 1) * step) : x.Near (n * step) ∨ x.Near ((n + 1) * step) := by
  obtain ⟨below, hbelow, hpositive, -, hpower, hquarters⟩ := x.quarters_eq
  have hs := significand_pos h
  have hs' : (x.significand : ℚ) < 2 ^ 53 := by
    have := x.significand_lt
    unfold fractionLimit at this
    exact_mod_cast (by omega : x.significand < 2 ^ 53)
  have hq := x.quarter_pos
  have hstep : step < 2 * (below * x.quarter) := by
    rw [magnitude_eq] at hfine
    have hcases : below = 1 ∨ below = 2 := by omega
    rcases hcases with rfl | rfl
    · have heq : (x.significand : ℚ) = 2 ^ 52 := by
        rw [hpower rfl]
        norm_num [fractionLimit]
      rw [heq] at hfine
      norm_num at hfine ⊢
      linarith
    · have hmul := mul_lt_mul_of_pos_right hs' hq
      norm_num at hfine hmul ⊢
      linarith
  have hlow : ((quarters x).1 : ℚ) * x.quarter = x.magnitude - below * x.quarter := by
    rw [hquarters, magnitude_eq]
    push_cast [Nat.cast_sub (by omega : below ≤ 4 * x.significand)]
    ring
  have hhigh : ((quarters x).2.2 : ℚ) * x.quarter = x.magnitude + 2 * x.quarter := by
    rw [hquarters, magnitude_eq]
    push_cast
    ring
  have htwo : (below : ℚ) * x.quarter ≤ 2 * x.quarter :=
    mul_le_mul_of_nonneg_right (by exact_mod_cast hbelow) hq.le
  have hpos : 0 < (below : ℚ) * x.quarter := mul_pos (by exact_mod_cast hpositive) hq
  have hsucc : ((n : ℚ) + 1) * step = n * step + step := by ring
  rcases le_total (x.magnitude - n * step) ((n + 1) * step - x.magnitude) with hnear | hnear
  · refine .inl (near_of_lt ?_ ?_)
    · rw [hlow]
      linarith
    · rw [hhigh]
      linarith
  · refine .inr (near_of_lt ?_ ?_)
    · rw [hlow]
      linarith
    · rw [hhigh]
      linarith

theorem ratio_eq (x : Finite64) : (x.ratio.1 : ℚ) / x.ratio.2 = x.magnitude := by
  have hpow := pow_toNat (t := 2) (by norm_num) x.scale
  unfold ratio magnitude
  simp only [Nat.pow_eq]
  push_cast
  rw [hpow]
  field_simp

end Finite64

/-! ## Grids -/

theorem pow_le_ratio {num den shift k : Nat} (hden : 0 < den)
    (h : 10 ^ k * den ≤ num * 10 ^ shift) : (10 : ℚ) ^ ((k : Int) - shift) ≤ num / den := by
  rw [zpow_sub₀ (by norm_num), zpow_natCast, zpow_natCast,
    div_le_div_iff₀ (by positivity) (Nat.cast_pos.mpr hden)]
  exact_mod_cast h

/-- A ratio is not less than the power of ten of its first digit. -/
theorem pow_leadingPlace_le {num den : Nat} (hden : 0 < den) (h : den ≤ num * Nat.pow 10 400) :
    (10 : ℚ) ^ (leadingPlace num den - 1) ≤ num / den := by
  have hcount : 0 < digitCount (num * Nat.pow 10 400 / den) := by
    unfold digitCount
    exact List.length_pos_iff.mpr Nat.toDigits_ne_nil
  have hle := (Nat.le_div_iff_mul_le hden).mp (pow_le_of_digitCount (Nat.div_pos h hden))
  have heq : leadingPlace num den - 1 =
      ((digitCount (num * Nat.pow 10 400 / den) - 1 : Nat) : Int) - (400 : Nat) := by
    unfold leadingPlace
    omega
  rw [heq]
  exact pow_le_ratio hden hle

/-- A ratio is less than the power of ten of the place in front of its first digit. -/
theorem ratio_lt_pow_leadingPlace (num : Nat) {den : Nat} (hden : 0 < den) :
    (num / den : ℚ) < 10 ^ leadingPlace num den := by
  have hlt := lt_pow_digitCount (num * Nat.pow 10 400 / den)
  rw [Nat.div_lt_iff_lt_mul hden, Nat.pow_eq] at hlt
  have hden' : (0 : ℚ) < den := Nat.cast_pos.mpr hden
  have hshift : (0 : ℚ) < 10 ^ 400 := pow_pos (by norm_num) _
  rw [leadingPlace, zpow_sub₀ (by norm_num), zpow_natCast, zpow_ofNat,
    div_lt_div_iff₀ hden' hshift, Nat.pow_eq]
  exact_mod_cast hlt

/-- The last point of a grid that is not above a ratio, and the next one. -/
theorem floor_le_ratio {num den : Nat} (hden : 0 < den) (power : Int) {n : Nat}
    (h : num * Nat.pow 10 (-power).toNat / (den * Nat.pow 10 power.toNat) = n) :
    n * (10 : ℚ) ^ power ≤ num / den ∧ (num / den : ℚ) < (n + 1) * 10 ^ power := by
  have hpow := Finite64.pow_toNat (t := 10) (by norm_num) power
  have hstep : 0 < den * 10 ^ power.toNat := Nat.mul_pos hden (Nat.pow_pos (by decide))
  have hfloor : n * (den * 10 ^ power.toNat) ≤ num * 10 ^ (-power).toNat :=
    (Nat.le_div_iff_mul_le hstep).mp h.ge
  have hceil : num * 10 ^ (-power).toNat < (n + 1) * (den * 10 ^ power.toNat) :=
    (Nat.div_lt_iff_lt_mul hstep).mp (by rw [Nat.lt_succ_iff]; exact h.le)
  have hden' : (0 : ℚ) < den := Nat.cast_pos.mpr hden
  have hscale : (0 : ℚ) < 10 ^ (-power).toNat := by positivity
  rw [← Nat.cast_le (α := ℚ)] at hfloor
  rw [← Nat.cast_lt (α := ℚ)] at hceil
  push_cast at hfloor hceil
  rw [hpow] at hfloor hceil
  rw [le_div_iff₀ hden', div_lt_iff₀ hden', ← mul_le_mul_iff_left₀ hscale,
    ← mul_lt_mul_iff_left₀ hscale]
  constructor
  · linarith
  · linarith

namespace Finite64

variable {x : Finite64}

/-- A number that is not zero is not less than one part in ten to the power 400. -/
theorem ratio_ge (h : x.isZero = false) : x.ratio.2 ≤ x.ratio.1 * Nat.pow 10 400 := by
  have hs := significand_pos h
  have hscale : (-x.scale).toNat ≤ 1074 := by
    rw [scale_eq]
    omega
  have hden : Nat.pow 2 (-x.scale).toNat ≤ Nat.pow 2 1074 := Nat.pow_le_pow_right (by decide) hscale
  have hnum : 1 ≤ x.significand * Nat.pow 2 x.scale.toNat := Nat.mul_pos hs (Nat.two_pow_pos _)
  have hlimit : Nat.pow 2 1074 ≤ Nat.pow 10 400 := by decide +kernel
  calc x.ratio.2 ≤ Nat.pow 10 400 := hden.trans hlimit
    _ ≤ x.ratio.1 * Nat.pow 10 400 := Nat.le_mul_of_pos_left _ hnum

theorem ratio_snd_pos (x : Finite64) : 0 < x.ratio.2 := Nat.two_pow_pos _

theorem nearer_eq (tie : Tie) (x : Finite64) (n : Nat) (power : Int) :
    nearer tie x n power = n ∨ nearer tie x n power = n + 1 := by
  unfold nearer
  dsimp only
  split
  · exact .inl rfl
  · split
    · exact .inr rfl
    · cases tie
      · dsimp only
        omega
      · exact .inr rfl

/-- What is found on a grid is a neighbour of the number that rounds to it. -/
theorem exists_of_onGrid? {tie : Tie} {count : Nat} {d : Digits} {power : Int} {floor : Nat}
    (h : onGrid? tie x count = some d) (hpower : leadingPlace x.ratio.1 x.ratio.2 - count = power)
    (hfloor : x.ratio.1 * Nat.pow 10 (-power).toNat / (x.ratio.2 * Nat.pow 10 power.toNat) =
      floor) :
    ∃ n, (n = floor ∨ n = floor + 1) ∧ roundsTo x n power = true ∧
      d = if n = Nat.pow 10 count then ⟨1, power + count⟩ else ⟨n, power⟩ := by
  unfold onGrid? at h
  dsimp only at h
  rw [hpower, hfloor] at h
  obtain ⟨n, hpick, hd⟩ := Option.map_eq_some_iff.mp h
  refine ⟨n, ?_⟩
  rw [and_comm, and_assoc]
  refine ⟨?_, hd.symm, ?_⟩ <;>
    cases hlow : roundsTo x floor power <;> cases hhigh : roundsTo x (floor + 1) power <;>
      rw [hlow, hhigh] at hpick
  · cases hpick
  · obtain rfl := Option.some.inj hpick
    exact hhigh
  · obtain rfl := Option.some.inj hpick
    exact hlow
  · rw [← Option.some.inj hpick]
    rcases nearer_eq tie x floor power with heq | heq <;> rw [heq]
    · exact hlow
    · exact hhigh
  · cases hpick
  · exact .inr (Option.some.inj hpick).symm
  · exact .inl (Option.some.inj hpick).symm
  · rw [← Option.some.inj hpick]
    exact nearer_eq tie x floor power

/-- A decimal that is found on a grid lies in the interval of the number. -/
theorem near_of_onGrid? {tie : Tie} {count : Nat} {d : Digits}
    (h : onGrid? tie x count = some d) : x.Near d.magnitude := by
  obtain ⟨n, -, hrounds, hd⟩ := exists_of_onGrid? h rfl rfl
  generalize leadingPlace x.ratio.1 x.ratio.2 - count = power at hrounds hd
  have hmagnitude : d.magnitude = n * 10 ^ power := by
    rw [hd]
    split
    · next heq =>
      have hcast : (n : ℚ) = 10 ^ count := by
        rw [heq, Nat.pow_eq]
        push_cast
        rfl
      rw [Digits.magnitude, hcast, zpow_add₀ (by norm_num), zpow_natCast]
      push_cast
      ring
    · rfl
  rw [hmagnitude]
  exact (roundsTo_iff x n power).mp hrounds

/-- A decimal that is found on a grid has at most so many digits. -/
theorem digits_le_of_onGrid? {tie : Tie} {count : Nat} {d : Digits}
    (h : onGrid? tie x count = some d) : d.digits ≤ 10 ^ count := by
  generalize hpower : leadingPlace x.ratio.1 x.ratio.2 - count = power
  generalize hfloor : x.ratio.1 * Nat.pow 10 (-power).toNat /
    (x.ratio.2 * Nat.pow 10 power.toNat) = floor
  obtain ⟨n, hn, -, hd⟩ := exists_of_onGrid? h hpower hfloor
  obtain ⟨hbelow, -⟩ := floor_le_ratio x.ratio_snd_pos power hfloor
  have hplace := ratio_lt_pow_leadingPlace x.ratio.1 x.ratio_snd_pos
  have hless : floor < 10 ^ count := by
    have heq : leadingPlace x.ratio.1 x.ratio.2 = count + power := by omega
    rw [heq, zpow_add₀ (by norm_num), zpow_natCast] at hplace
    exact_mod_cast lt_of_mul_lt_mul_right (hbelow.trans_lt hplace) (zpow_nonneg (by norm_num) _)
  rw [hd]
  split
  · exact Nat.one_le_pow _ _ (by decide)
  · show n ≤ 10 ^ count
    omega

/-- Grids of seventeen digits are fine enough. -/
theorem isSome_onGrid? (tie : Tie) (h : x.isZero = false) : (onGrid? tie x 17).isSome = true := by
  have hplace := pow_leadingPlace_le x.ratio_snd_pos (ratio_ge h)
  unfold onGrid?
  dsimp only
  generalize hpower : leadingPlace x.ratio.1 x.ratio.2 - (17 : Nat) = power
  generalize hfloor : x.ratio.1 * Nat.pow 10 (-power).toNat /
    (x.ratio.2 * Nat.pow 10 power.toNat) = floor
  have hfine : (10 : ℚ) ^ power * 10 ^ 16 ≤ x.magnitude := by
    have heq : leadingPlace x.ratio.1 x.ratio.2 - 1 = power + (16 : Nat) := by omega
    rwa [heq, zpow_add₀ (by norm_num), zpow_natCast, ratio_eq] at hplace
  obtain ⟨hbelow, habove⟩ := floor_le_ratio x.ratio_snd_pos power hfloor
  rw [ratio_eq] at hbelow habove
  have hsucc : ((floor : ℚ) + 1) = ((floor + 1 : Nat) : ℚ) := by push_cast; rfl
  rw [Option.isSome_map]
  rcases near_or_near h hfine hbelow habove with hnear | hnear
  · rw [(roundsTo_iff x floor power).mpr hnear]
    cases roundsTo x (floor + 1) power <;> rfl
  · rw [hsucc] at hnear
    rw [(roundsTo_iff x (floor + 1) power).mpr hnear]
    cases roundsTo x floor power <;> rfl

/-- The shortest decimal of a number that is not zero is found on a grid of at most seventeen
digits. -/
theorem exists_onGrid?_eq (tie : Tie) (h : x.isZero = false) :
    ∃ count ≤ 17, onGrid? tie x count = some (shortest tie x) := by
  have hsome : ((List.range 17).findSome? fun n => onGrid? tie x (n + 1)).isSome = true := by
    rw [List.findSome?_isSome_iff]
    exact ⟨16, by decide, isSome_onGrid? tie h⟩
  obtain ⟨d, hd⟩ := Option.isSome_iff_exists.mp hsome
  rw [shortest, hd, Option.getD_some]
  obtain ⟨n, hrange, hn⟩ := List.exists_of_findSome?_eq_some hd
  exact ⟨n + 1, List.mem_range.mp hrange, hn⟩

/-- A number that is not zero has its shortest decimal in its interval. -/
theorem near_shortest (tie : Tie) (h : x.isZero = false) : x.Near (shortest tie x).magnitude := by
  obtain ⟨count, -, hgrid⟩ := exists_onGrid?_eq tie h
  exact near_of_onGrid? hgrid

theorem digits_shortest_le (tie : Tie) (h : x.isZero = false) :
    (shortest tie x).digits ≤ 10 ^ 17 := by
  obtain ⟨count, hcount, hgrid⟩ := exists_onGrid?_eq tie h
  exact (digits_le_of_onGrid? hgrid).trans (Nat.pow_le_pow_right (by decide) hcount)

/-! ## Reading back -/

/-- What lies in the interval of a number is not less than half its unit, and at most half its unit
above the number. -/
theorem near_ends (h : x.isZero = false) {v : ℚ} (hnear : x.Near v) :
    2 * x.quarter ≤ v ∧ v ≤ (4 * x.significand + 2) * x.quarter := by
  obtain ⟨below, hbelow, hpositive, -, -, hquarters⟩ := x.quarters_eq
  have hs := significand_pos h
  have hlow : (2 : ℚ) ≤ (4 * x.significand - below : Nat) := by
    exact_mod_cast (by omega : 2 ≤ 4 * x.significand - below)
  have hlow := mul_le_mul_of_nonneg_right hlow x.quarter_pos.le
  unfold Near at hnear
  rw [hquarters] at hnear
  push_cast at hnear hlow
  split at hnear
  · exact ⟨hlow.trans hnear.1, hnear.2⟩
  · exact ⟨hlow.trans hnear.1.le, hnear.2.le⟩

/-- How many times the least positive number goes into the least power of two that is too large for
a finite number. -/
@[irreducible] def unitsLimit : Nat := Nat.pow 2 2098

/-- What lies in the interval of a number is not less than half the least positive number, and less
than what is too large. -/
theorem near_bounds (h : x.isZero = false) {v : ℚ} (hnear : x.Near v) :
    1 ≤ v * (2 * unitsOfOne) ∧ v * unitsOfOne < unitsLimit := by
  have hunits : (0 : ℚ) < unitsOfOne := Nat.cast_pos.mpr unitsOfOne_pos
  have hq := x.quarter_pos
  have hends := near_ends h hnear
  have hone : (1 : ℚ) ≤ x.quarter * (4 * unitsOfOne) := by
    rw [quarter_eq]
    exact one_le_pow₀ (by norm_num)
  have hs' : (4 * x.significand + 2 : ℚ) < 4 * 2 ^ 53 := by
    have hlt := x.significand_lt
    unfold fractionLimit at hlt
    exact_mod_cast (by omega : 4 * x.significand + 2 < 4 * 2 ^ 53)
  have hlimit : (2 ^ 53 * 2 ^ x.doublings : Nat) ≤ unitsLimit := by
    have hfield : x.exponentField < 2047 := (Nat.div_lt_iff_lt_mul (by decide)).mpr x.word.isLt
    unfold unitsLimit doublings
    rw [← Nat.pow_add]
    exact Nat.pow_le_pow_right (by decide) (by omega)
  constructor
  · have hmul := mul_le_mul_of_nonneg_right hends.1 (by positivity : (0 : ℚ) ≤ 2 * unitsOfOne)
    linarith
  · calc v * unitsOfOne ≤ (4 * x.significand + 2) * x.quarter * unitsOfOne :=
          mul_le_mul_of_nonneg_right hends.2 hunits.le
      _ < 4 * 2 ^ 53 * x.quarter * unitsOfOne :=
          mul_lt_mul_of_pos_right (mul_lt_mul_of_pos_right hs' hq) hunits
      _ = 2 ^ 53 * 2 ^ x.doublings := by
          rw [← quarter_eq]
          ring
      _ ≤ unitsLimit := by exact_mod_cast hlimit

/-- A decimal is less than the power of ten of the place in front of its first digit. -/
theorem lt_pow_place (digits : Nat) (power : Int) :
    (digits * 10 ^ power : ℚ) < 10 ^ (power + digitCount digits) := by
  rw [add_comm, zpow_add₀ (by norm_num), zpow_natCast]
  exact mul_lt_mul_of_pos_right (by exact_mod_cast lt_pow_digitCount digits)
    (zpow_pos (by norm_num) _)

/-- A decimal is not less than the power of ten of its first digit. -/
theorem pow_place_le {digits : Nat} (h : 0 < digits) (power : Int) :
    (10 : ℚ) ^ (power + digitCount digits - 1) ≤ digits * 10 ^ power := by
  have hcount : 0 < digitCount digits := by
    unfold digitCount
    exact List.length_pos_iff.mpr Nat.toDigits_ne_nil
  have heq : power + digitCount digits - 1 = ((digitCount digits - 1 : Nat) : Int) + power := by
    omega
  rw [heq, zpow_add₀ (by norm_num), zpow_natCast]
  exact mul_le_mul_of_nonneg_right (by exact_mod_cast pow_le_of_digitCount h)
    (zpow_nonneg (by norm_num) _)

section

variable (h : x.isZero = false) {digits : Nat} {power : Int}
  (hnear : x.Near (digits * 10 ^ power))
include h hnear

theorem digits_pos_of_near : 0 < digits := by
  obtain ⟨hlow, -⟩ := near_bounds h hnear
  refine Nat.pos_of_ne_zero fun hzero => ?_
  rw [hzero, Nat.cast_zero, zero_mul, zero_mul] at hlow
  exact absurd hlow (by norm_num)

/-- A decimal in the interval of a number has its first digit in reach. -/
theorem place_of_near :
    -330 ≤ power + digitCount digits ∧ power + digitCount digits ≤ 310 := by
  obtain ⟨hlow, hhigh⟩ := near_bounds h hnear
  have hunits : (0 : ℚ) < unitsOfOne := Nat.cast_pos.mpr unitsOfOne_pos
  have hcast (k : Nat) : ((Nat.pow 10 k : Nat) : ℚ) = 10 ^ (k : Int) := by
    rw [Nat.pow_eq, Nat.cast_pow, zpow_natCast, Nat.cast_ofNat]
  constructor
  · by_contra hlt
    have hsmall : 2 * unitsOfOne ≤ Nat.pow 10 331 := by
      unfold unitsOfOne
      decide +kernel
    have hsmall : (2 * unitsOfOne : ℚ) ≤ 10 ^ ((331 : Nat) : Int) := by
      rw [← hcast]
      exact_mod_cast hsmall
    have hplace : (0 : ℚ) < 10 ^ (power + digitCount digits) := zpow_pos (by norm_num) _
    have hone : (10 : ℚ) ^ (power + digitCount digits) * 10 ^ ((331 : Nat) : Int) ≤ 1 := by
      rw [← zpow_add₀ (by norm_num)]
      exact zpow_le_one_of_nonpos₀ (by norm_num) (by omega)
    have hmul := mul_lt_mul_of_pos_right (lt_pow_place digits power)
      (by positivity : (0 : ℚ) < 2 * unitsOfOne)
    have hmul' := mul_le_mul_of_nonneg_left hsmall hplace.le
    linarith
  · by_contra hlt
    have hlarge : unitsLimit ≤ Nat.pow 10 310 * unitsOfOne := by
      unfold unitsLimit unitsOfOne
      decide +kernel
    have hlarge : (unitsLimit : ℚ) ≤ 10 ^ ((310 : Nat) : Int) * unitsOfOne := by
      rw [← hcast]
      exact_mod_cast hlarge
    have hpow : (10 : ℚ) ^ ((310 : Nat) : Int) ≤ 10 ^ (power + digitCount digits - 1) :=
      zpow_le_zpow_right₀ (by norm_num) (by omega)
    have hmul := mul_le_mul_of_nonneg_right
      (hpow.trans (pow_place_le (digits_pos_of_near h hnear) power)) hunits.le
    linarith

end

/-- A numeral in the interval of a number is read as the number. -/
theorem toBinary64_of_near (h : x.isZero = false) {n : Numeral} (hnear : x.Near n.magnitude)
    (hsign : n.negative = x.negative) : n.toBinary64 = .finite x := by
  have hdigits := digits_pos_of_near h hnear
  obtain ⟨hfirst, hlast⟩ := place_of_near h hnear
  have hword : nearestWord (n.digits * Nat.pow 10 n.power.toNat) (Nat.pow 10 (-n.power).toNat) =
      x.word := by
    refine nearestWord_of_near (Nat.pow_pos (by decide)) ?_
    have hpow := pow_toNat (t := 10) (by norm_num) n.power
    have hratio : ((n.digits * Nat.pow 10 n.power.toNat : Nat) : ℚ) /
        (Nat.pow 10 (-n.power).toNat : Nat) = n.magnitude := by
      simp only [Nat.pow_eq]
      push_cast
      rw [hpow, Numeral.magnitude]
      field_simp
    rwa [hratio]
  rw [Numeral.toBinary64, if_neg (by simp [hfirst, Nat.ne_of_gt hdigits]),
    if_neg (Int.not_lt.mpr hlast), roundRatio, hword, hsign, ofWord, dif_pos x.word.isLt]

/-- The text of a finite number is read back as the number. -/
theorem readBinary64?_text (x : Finite64) : readBinary64? (x.text .sql) = some (.finite x) := by
  have hbody (body : String) (hdigit : body.toList.head?.any Char.isDigit = true)
      (hread : (readNumeral? x.negative body.toList).map Numeral.toBinary64 = some (.finite x)) :
      readBinary64? ((if x.negative then "-" else "") ++ body) = some (.finite x) := by
    refine Eq.trans (readBinary64?_of_isDigit ?_ hdigit) hread
    cases x.negative with
    | false => 
      rw [if_neg Bool.false_ne_true, String.empty_append]
      exact takeSign_of_isDigit hdigit
    | true =>
      rw [if_pos rfl, String.toList_append]
      rfl
  unfold text
  refine hbody _ ?_ ?_
  · split
    · rfl
    · exact head?_any_of_isNumeral (Sql.Digits.isNumeral_text _)
  · split
    · next hzero =>
      have htext : readNumeral? x.negative ("0" ++ Layout.sql.whole).toList =
          some ⟨x.negative, 0, -1⟩ := rfl
      have hword : x = .zero x.negative := by
        obtain ⟨negative, word, hword⟩ := x
        obtain rfl : word = 0 := of_decide_eq_true hzero
        rfl
      rw [htext, Option.map_some]
      exact congrArg (fun y => some (Binary64.finite y)) hword.symm
    · next hzero =>
      obtain ⟨n, hread, hsign, hmagnitude⟩ :=
        (shortest Layout.sql.tie x).readNumeral?_text x.negative
      have h : x.isZero = false := by simpa using hzero
      rw [hread, Option.map_some, toBinary64_of_near h (hmagnitude ▸ near_shortest _ h) hsign]

end Finite64

end JsonSql.Decimal
