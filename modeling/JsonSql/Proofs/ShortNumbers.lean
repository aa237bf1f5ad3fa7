import JsonSql.Proofs.WrittenNumbers

set_option autoImplicit false

/-!
# Numbers read as themselves

The reader scales the digits of a number in two rounded steps.  The first one is exact if the digits
fit 53 bits, and so is the power of ten up to the twenty-second.  A number with so few digits is
rounded once, and is read again as itself (`Finite64.reread_of_hasFewDigits`).
-/

namespace JsonSql.Decimal

/-- The greatest power of ten that is a number itself. -/
def exactPower : Nat := 22

/-- The digits that the text of a number shows are a whole number of 53 bits, scaled by a power of
ten that is a number itself; or the number is zero. -/
def Finite64.HasFewDigits (x : Finite64) : Prop :=
  x.isZero = true ∨ (shortest .toEven x).written.1 < 2 * fractionLimit ∧
    (shortest .toEven x).written.2.natAbs ≤ exactPower

instance (x : Finite64) : Decidable x.HasFewDigits :=
  inferInstanceAs (Decidable (_ ∨ _))

/-! ## Exact steps -/

/-- Positive whole numbers of 53 bits, shifted to exactly 53 bits. -/
theorem nearestWord_nat {n k : Nat} (hlow : fractionLimit ≤ n * 2 ^ k)
    (hhigh : n * 2 ^ k < 2 * fractionLimit) (hk : k ≤ 1074) :
    nearestWord n 1 = (1074 - k) * fractionLimit + n * 2 ^ k := by
  have hsplit (m : Nat) (hm : k ≤ m) : n * Nat.pow 2 m = n * 2 ^ k * (1 * 2 ^ (m - k)) := by
    rw [Nat.pow_eq, Nat.one_mul, Nat.mul_assoc, ← Nat.pow_add, Nat.add_sub_cancel' hm]
  have hpos : 0 < 1 * 2 ^ (1074 - k) := Nat.mul_pos Nat.one_pos (Nat.two_pow_pos _)
  unfold nearestWord
  rw [hsplit 1074 hk]
  exact word_eq Nat.one_pos hhigh (by omega) (fun _ _ => by omega) (by omega) (by omega)
    fun _ => hlow

namespace Finite64

/-- The word of a number has one significand. -/
theorem significand_eq (x : Finite64) {h s : Nat} (hword : (x.word : Nat) = h * fractionLimit + s)
    (hlow : fractionLimit ≤ s) (hhigh : s < 2 * fractionLimit) (hh : 0 < h) :
    x.doublings = h ∧ x.significand = s := by
  have hdoublings := x.word_eq_doublings
  have hs := x.significand_lt
  have hnormal : x.doublings ≠ 0 → fractionLimit ≤ x.significand := x.le_significand
  unfold fractionLimit at *
  omega

end Finite64

/-- A whole number of 53 bits is a number. -/
theorem exists_ofNat_eq {n : Nat} (h : n < 2 * fractionLimit) :
    ∃ y, finitePart? (.ofNat n) = some y ∧ y.negative = false ∧ y.magnitude = n := by
  have hlimit : n < nat64Limit := h.trans (by decide)
  obtain ⟨y, hy, hword, hsign⟩ := exists_roundRatio_eq false (nearestWord_lt hlimit)
  refine ⟨y, congrArg finitePart? hy, hsign, ?_⟩
  rcases Nat.eq_zero_or_pos n with rfl | hpos
  · have hzero : y = .zero false := by
      have hfin : y.word = ⟨0, by decide⟩ := Fin.ext (hword.trans (by decide +kernel))
      rw [Finite64.zero, ← hfin, ← hsign]
    rw [hzero, Finite64.magnitude, show (Finite64.zero false).significand = 0 by decide]
    norm_num
  · have hlog : n.log2 ≤ 52 := by
      have hlt := (Nat.log2_lt hpos.ne').mpr (show n < 2 ^ 53 from h)
      omega
    have hbits : 2 ^ n.log2 * 2 ^ (52 - n.log2) = fractionLimit := by
      rw [← Nat.pow_add, Nat.add_sub_cancel' hlog]
      rfl
    have hlow : fractionLimit ≤ n * 2 ^ (52 - n.log2) := by
      rw [← hbits]
      exact Nat.mul_le_mul_right _ (Nat.log2_self_le hpos.ne')
    have hhigh : n * 2 ^ (52 - n.log2) < 2 * fractionLimit := by
      rw [← hbits, ← Nat.mul_assoc, ← Nat.pow_succ']
      exact Nat.mul_lt_mul_of_pos_right Nat.lt_log2_self (Nat.two_pow_pos _)
    have hk : 52 - n.log2 ≤ 52 := Nat.sub_le 52 _
    generalize 52 - n.log2 = k at hlow hhigh hk
    rw [nearestWord_nat hlow hhigh (by omega)] at hword
    obtain ⟨hdoublings, hsignificand⟩ := y.significand_eq hword hlow hhigh (by omega)
    have hscale : y.scale = -k := by
      rw [y.scale_eq, hdoublings]
      omega
    rw [Finite64.magnitude, hsignificand, hscale, Nat.cast_mul, Nat.cast_pow, Nat.cast_ofNat,
      zpow_neg, zpow_natCast]
    field_simp

/-- The powers of ten up to the twenty-second are numbers. -/
theorem ratio_powerOfTen : ∀ n ≤ exactPower, (powerOfTen n).negative = false ∧
    (powerOfTen n).ratio.1 = Nat.pow 10 n * (powerOfTen n).ratio.2 := by
  decide +kernel

theorem magnitude_powerOfTen {n : Nat} (h : n ≤ exactPower) :
    (powerOfTen n).magnitude = 10 ^ n := by
  obtain ⟨-, hratio⟩ := ratio_powerOfTen n h
  have hpos : ((powerOfTen n).ratio.2 : ℚ) ≠ 0 :=
    Nat.cast_ne_zero.mpr (powerOfTen n).ratio_snd_pos.ne'
  rw [← Finite64.ratio_eq, hratio, Nat.pow_eq, Nat.cast_mul, Nat.cast_pow, Nat.cast_ofNat,
    mul_div_cancel_right₀ _ hpos]

/-! ## One rounded step -/

namespace Finite64

variable {x : Finite64}

/-- What lies in the interval of a number is rounded to it. -/
theorem roundRatio_of_near {num den : Nat} (hden : 0 < den) (h : x.Near (num / den)) :
    finitePart? (roundRatio false num den) = some ⟨false, x.word⟩ := by
  rw [roundRatio, nearestWord_of_near hden h, ofWord, dif_pos x.word.isLt]
  rfl

section

variable {y z : Finite64} (hy : y.negative = false) (hz : z.negative = false)
include hy hz

theorem mul_of_near (h : x.Near (y.magnitude * z.magnitude)) :
    finitePart? (y.mul z) = some ⟨false, x.word⟩ := by
  unfold mul
  dsimp only
  rw [hy, hz, bne_self_eq_false]
  refine roundRatio_of_near (Nat.mul_pos y.ratio_snd_pos z.ratio_snd_pos) ?_
  rwa [Nat.cast_mul, Nat.cast_mul, mul_div_mul_comm, ratio_eq, ratio_eq]

theorem div_of_near (hpos : 0 < z.magnitude) (h : x.Near (y.magnitude / z.magnitude)) :
    finitePart? (y.div z) = some ⟨false, x.word⟩ := by
  have hfirst : 0 < z.ratio.1 := by
    rw [← ratio_eq] at hpos
    refine Nat.pos_of_ne_zero fun hzero => ?_
    rw [hzero, Nat.cast_zero, zero_div] at hpos
    exact lt_irrefl _ hpos
  unfold div
  dsimp only
  rw [hy, hz, bne_self_eq_false]
  refine roundRatio_of_near (Nat.mul_pos y.ratio_snd_pos hfirst) ?_
  rw [← ratio_eq, ← ratio_eq, div_div_div_eq] at h
  rwa [Nat.cast_mul, Nat.cast_mul]

end

/-- A number times a power of ten is rounded once. -/
theorem scaleByTen_of_near {y : Finite64} {power : Int} (hpower : power.natAbs ≤ exactPower)
    (hy : y.negative = false) (hnear : x.Near (y.magnitude * 10 ^ power)) :
    scaleByTen y power = some ⟨false, x.word⟩ := by
  obtain ⟨hten, -⟩ := ratio_powerOfTen _ hpower
  have hvalue := magnitude_powerOfTen hpower
  by_cases hneg : power < 0
  · have htimes : (power.natAbs - 1) / greatestPower = 0 := by
      unfold greatestPower
      unfold exactPower at hpower
      omega
    have hlift : power = -(power.natAbs : Int) := by omega
    rw [hlift, zpow_neg, zpow_natCast, ← hvalue, ← div_eq_mul_inv] at hnear
    rw [scaleByTen, if_pos hneg, scaleDown, htimes, divideOver, Option.bind_some, Nat.mul_zero,
      Nat.sub_zero]
    exact div_of_near hy hten (by rw [hvalue]; positivity) hnear
  · have hle : power ≤ greatestPower := by
      unfold greatestPower
      unfold exactPower at hpower
      omega
    have hlift : power = (power.natAbs : Int) := by omega
    have hnat : power.toNat = power.natAbs := by omega
    rw [hlift, zpow_natCast, ← hvalue] at hnear
    rw [scaleByTen, if_neg hneg, if_pos hle, hnat]
    exact mul_of_near hy hten hnear

/-- A number with few digits is read again as itself. -/
theorem reread_of_hasFewDigits (h : x.HasFewDigits) : x.reread = x := by
  have hself (hread : readNumber? ((x.text .json).toList ++ []) = some (.float x, [])) :
      x.reread = x := by
    rw [List.append_nil] at hread
    rw [reread, hread]
  rcases hzero : x.isZero with _ | _
  · obtain ⟨hdigits, hpower⟩ := h.resolve_left (by rw [hzero]; decide)
    obtain ⟨y, hy, hsign, hvalue⟩ := exists_ofNat_eq hdigits
    have hnear := near_shortest .toEven hzero
    rw [← Digits.magnitude_written, ← hvalue] at hnear
    refine hself (readNumber?_text_of_floatOf? hzero ?_ endsNumber_nil)
    rw [floatOf?, hy, Option.bind_some, scaleByTen_of_near hpower hsign hnear, Option.map_some]
    cases hx : x.negative <;> simp [negate, ← hx]
  · exact hself (readNumber?_text_of_isZero hzero endsNumber_nil)

end Finite64

end JsonSql.Decimal
