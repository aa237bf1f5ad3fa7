import JsonSql.Json.Printer
import JsonSql.Proofs.Rounding

set_option autoImplicit false

/-!
# Numbers in JSON text read again

The text of an integer is read as the integer.  That of any other number is read as a number that
may be another one, since the reader rounds in two steps (`Number.reread`).  It never is too large:
a power of ten that takes the shortest decimal of a number past the finite numbers would have taken
the greatest number past them.
-/

namespace JsonSql

open JsonSql.Decimal

/-! ## Parts of numbers -/

/-- What stands in front does not go on with a number. -/
def EndsNumber (cs : List Char) : Prop :=
  ∀ c ∈ cs.head?, c.isDigit = false ∧ c ≠ '.' ∧ c ≠ 'e' ∧ c ≠ 'E'

theorem endsNumber_nil : EndsNumber [] := by rintro c ⟨⟩

/-- The digits behind a point, if there are any. -/
def pointedPart? : List Char → Option (List Char)
  | [] => none
  | part => some part

theorem getD_pointedPart? (part : List Char) : (pointedPart? part).getD [] = part := by
  cases part <;> rfl

section

variable {whole part rest : List Char}

theorem wholeDigits?_append (hne : whole ≠ []) (hwhole : ∀ c ∈ whole, c.isDigit = true)
    (hleads : whole = ['0'] ∨ whole.head? ≠ some '0')
    (hrest : ∀ c ∈ rest.head?, c.isDigit = false) :
    wholeDigits? (whole ++ rest) = some (whole, rest) := by
  rw [wholeDigits?, takeDigits_append hwhole hrest]
  rcases hleads with rfl | hleads
  · rfl
  · cases whole with
    | nil => exact absurd rfl hne
    | cons d ds =>
      have hd : d ≠ '0' := fun h => hleads (congrArg some h)
      split
      · next heq => cases heq
      · next heq =>
        cases heq
        exact absurd rfl hd
      · next heq =>
        cases heq
        exact absurd rfl hd
      · next heq =>
        cases heq
        rfl

theorem fractionDigits?_pointed (hpart : ∀ c ∈ part, c.isDigit = true)
    (hrest : ∀ c ∈ rest.head?, c.isDigit = false ∧ c ≠ '.') :
    fractionDigits? (pointed part ++ rest) = some (pointedPart? part, rest) := by
  cases part with
  | nil =>
    show fractionDigits? rest = some (none, rest)
    unfold fractionDigits?
    split
    · exact absurd rfl (hrest '.' rfl).2
    · rfl
  | cons d ds =>
    show fractionDigits? ('.' :: (d :: ds ++ rest)) = some (some (d :: ds), rest)
    rw [fractionDigits?, takeDigits_append hpart fun c hc => (hrest c hc).1]

theorem powerDigits?_of_endsNumber (h : EndsNumber rest) :
    powerDigits? rest = some (none, rest) := by
  cases rest with
  | nil => rfl
  | cons c cs =>
    obtain ⟨-, -, he, hE⟩ := h c rfl
    rw [powerDigits?, if_neg (by simp [he, hE])]

/-- A power of ten with its sign, which a plus may mark. -/
theorem powerDigits?_intText (n : Int) (h : EndsNumber rest) :
    powerDigits? ('e' :: ((if 0 < n then "+" else "").toList ++ (toString n).toList ++ rest)) =
      some (some (decide (n < 0), (toString n.natAbs).toList), rest) := by
  have hdigits (m : Nat) : takeDigits ((toString m).toList ++ rest) = ((toString m).toList, rest) :=
    takeDigits_append (fun _ => Sql.isDigit_of_mem_natText) fun c hc => (h c hc).1
  have htext (m : Nat) : (toString (Int.ofNat m)).toList = (toString m).toList := rfl
  have hsome {negative : Bool} {cs : List Char} (m : Nat)
      (hsign : takeSign cs = (negative, (toString m).toList ++ rest)) :
      powerDigits? ('e' :: cs) = some (some (negative, (toString m).toList), rest) := by
    rw [powerDigits?, if_pos (by decide), hsign]
    dsimp only
    rw [hdigits]
    cases hcs : (toString m).toList with
    | nil => exact absurd hcs (Sql.natText_ne_nil m)
    | cons c cs => rfl
  cases n with
  | ofNat m =>
    have hplain : decide (Int.ofNat m < 0) = false := decide_eq_false (Int.not_lt.mpr (by simp))
    rw [hplain, Int.natAbs_ofNat']
    refine hsome m ?_
    rw [htext]
    split
    · rfl
    · exact takeSign_of_isDigit (by
        rw [String.toList_empty, List.nil_append, List.head?_append_of_ne_nil _
          (Sql.natText_ne_nil m)]
        exact head?_any_isDigit (Sql.natText_ne_nil m) fun _ => Sql.isDigit_of_mem_natText)
  | negSucc m =>
    have hneg : decide (Int.negSucc m < 0) = true := decide_eq_true (Int.negSucc_lt_zero m)
    rw [hneg, if_neg (by simp), Sql.negText_toList]
    exact hsome (m + 1) rfl

end

/-! ## Significands -/

/-- Digits that stay in 64 bits are all taken. -/
theorem appendDigits_eq {n : Nat} {ds : List Char}
    (h : n * 10 ^ ds.length + digitsValue ds < nat64Limit) :
    appendDigits n ds = (n * 10 ^ ds.length + digitsValue ds, []) := by
  induction ds generalizing n with
  | nil => simp [appendDigits, digitsValue]
  | cons d ds ih =>
    have hvalue : n * 10 ^ (d :: ds).length + digitsValue (d :: ds) =
        (10 * n + (d.toNat - 48)) * 10 ^ ds.length + digitsValue ds := by
      have hsplit := digitsValue_append [d] ds
      rw [List.singleton_append] at hsplit
      have hone : digitsValue [d] = d.toNat - 48 := by simp [digitsValue]
      rw [hsplit, hone, List.length_cons, pow_succ]
      ring
    rw [hvalue] at h ⊢
    have hless : 10 * n + (d.toNat - 48) < nat64Limit := by
      have hpow := Nat.le_mul_of_pos_right (10 * n + (d.toNat - 48))
        (Nat.pow_pos (n := ds.length) (by decide : 0 < 10))
      omega
    rw [appendDigits, if_pos hless]
    exact ih h

section

variable {whole part : List Char} (h : digitsValue (whole ++ part) < nat64Limit)
include h

theorem appendDigits_whole : appendDigits 0 whole = (digitsValue whole, []) ∧
    appendDigits (digitsValue whole) part = (digitsValue (whole ++ part), []) := by
  rw [digitsValue_append] at h ⊢
  refine ⟨?_, appendDigits_eq h⟩
  have hpow := Nat.le_mul_of_pos_right (digitsValue whole)
    (Nat.pow_pos (n := part.length) (by decide : 0 < 10))
  have hwhole : appendDigits 0 whole = _ := appendDigits_eq (by omega)
  rwa [Nat.zero_mul, Nat.zero_add] at hwhole

theorem numberOf?_fraction (negative : Bool) (hpart : part ≠ []) :
    numberOf? negative whole (pointedPart? part) none =
      (floatOf? negative (digitsValue (whole ++ part)) (-part.length)).map .float := by
  obtain ⟨hfirst, hsecond⟩ := appendDigits_whole h
  cases part with
  | nil => exact absurd rfl hpart
  | cons d ds =>
    simp [numberOf?, pointedPart?, hfirst, hsecond]

theorem numberOf?_power (negative : Bool) {powerNegative : Bool} {powerDigits : List Char}
    (hpower : digitsValue powerDigits < powerLimit) :
    numberOf? negative whole (pointedPart? part) (some (powerNegative, powerDigits)) =
      (floatOf? negative (digitsValue (whole ++ part))
        ((if powerNegative then -(digitsValue powerDigits : Int) else digitsValue powerDigits) -
          part.length)).map .float := by
  obtain ⟨hfirst, hsecond⟩ := appendDigits_whole h
  unfold numberOf?
  rw [hfirst]
  simp only [getD_pointedPart?, hsecond, if_neg (Nat.not_le.mpr hpower)]
  cases powerNegative <;> simp <;> ring_nf

end

/-! ## Two rounded steps -/

theorem finitePart?_eq_some {b : Binary64} {x : Finite64} (h : finitePart? b = some x) :
    b = .finite x := by
  cases b with
  | finite y => exact congrArg Binary64.finite (Option.some.inj h)
  | infinite negative => cases h
  | nan => cases h

theorem exists_finitePart?_ofNat {n : Nat} (h : n < nat64Limit) :
    ∃ x, finitePart? (.ofNat n) = some x ∧ (x.word : Nat) = nearestWord n 1 := by
  obtain ⟨x, hx, hword, -⟩ := exists_roundRatio_eq false (nearestWord_lt h)
  exact ⟨x, congrArg finitePart? hx, hword⟩

theorem one_le_powerOfTen :
    ∀ n ≤ greatestPower, (powerOfTen n).ratio.2 ≤ (powerOfTen n).ratio.1 := by
  decide +kernel

theorem exists_finitePart?_div (x : Finite64) {n : Nat} (h : n ≤ greatestPower) :
    ∃ y, finitePart? (x.div (powerOfTen n)) = some y := by
  obtain ⟨y, hy⟩ := Finite64.exists_div_eq x (one_le_powerOfTen n h)
  exact ⟨y, congrArg finitePart? hy⟩

theorem exists_divideOver (times : Nat) (x : Finite64) :
    ∃ y, divideOver (powerOfTen greatestPower) times x = some y := by
  induction times generalizing x with
  | zero => exact ⟨x, rfl⟩
  | succ times ih =>
    rw [divideOver]
    split
    · exact ⟨x, rfl⟩
    · obtain ⟨y, hy⟩ := exists_finitePart?_div x (Nat.le_refl greatestPower)
      rw [hy]
      exact ih y

/-- A number can be divided by any power of ten. -/
theorem exists_scaleDown (x : Finite64) (power : Nat) : ∃ y, scaleDown x power = some y := by
  obtain ⟨y, hy⟩ := exists_divideOver ((power - 1) / greatestPower) x
  have hrest : power - greatestPower * ((power - 1) / greatestPower) ≤ greatestPower := by
    unfold greatestPower
    omega
  obtain ⟨z, hz⟩ := exists_finitePart?_div y hrest
  refine ⟨z, ?_⟩
  rw [scaleDown, hy, Option.bind_some, hz]

/-- The greatest number that is rounded to a finite number other than the greatest one. -/
@[irreducible] def productLimit : Nat := (Nat.pow 2 55 - 6) * Nat.pow 2 969

/-- The greatest significand of at most seventeen digits that a power of ten does not take past the
limit. -/
def greatestFactor (power : Nat) : Nat := min (Nat.pow 10 17) (productLimit / Nat.pow 10 power)

/-- The greatest significand can be multiplied by the power of ten. -/
theorem isSome_mul_greatestFactor : ∀ power ≤ greatestPower,
    ((finitePart? (.ofNat (greatestFactor power))).bind fun x =>
      finitePart? (x.mul (powerOfTen power))).isSome = true := by
  unfold greatestFactor productLimit
  decide +kernel

theorem lt_nat64Limit {n : Nat} (h : n ≤ 10 ^ 17) : n < nat64Limit :=
  Nat.lt_of_le_of_lt h (by decide)

/-- A significand of at most seventeen digits can be scaled unless the power of ten takes it past
the limit. -/
theorem exists_scaleByTen {x : Finite64} {significand : Nat} {power : Int}
    (hword : (x.word : Nat) = nearestWord significand 1) (hdigits : significand ≤ 10 ^ 17)
    (hpositive : 0 < significand)
    (hlimit : 0 ≤ power → significand * 10 ^ power.toNat ≤ productLimit) :
    ∃ y, scaleByTen x power = some y := by
  by_cases hneg : power < 0
  · rw [scaleByTen, if_pos hneg]
    exact exists_scaleDown x power.natAbs
  · have hlimit := hlimit (Int.not_lt.mp hneg)
    have hpower : power.toNat ≤ greatestPower := by
      by_contra hnot
      have hpow : 10 ^ 309 ≤ 10 ^ power.toNat :=
        Nat.pow_le_pow_right (by decide) (by unfold greatestPower at hnot; omega)
      have hpast : productLimit < 10 ^ 309 := by
        rw [← Nat.pow_eq]
        unfold productLimit
        decide +kernel
      have hmul := Nat.mul_le_mul hpositive hpow
      rw [Nat.one_mul] at hmul
      exact absurd (hmul.trans hlimit) (Nat.not_le.mpr hpast)
    have hfactor : significand ≤ greatestFactor power.toNat :=
      Nat.le_min.mpr ⟨hdigits, (Nat.le_div_iff_mul_le (Nat.pow_pos (by decide))).mpr hlimit⟩
    obtain ⟨z, hz⟩ := Option.isSome_iff_exists.mp (isSome_mul_greatestFactor _ hpower)
    obtain ⟨greatest, hgreatest, hz⟩ := Option.bind_eq_some_iff.mp hz
    have hless : (x.word : Nat) ≤ greatest.word := by
      obtain ⟨same, hsame, hword'⟩ := exists_finitePart?_ofNat
        (lt_nat64Limit (Nat.min_le_left _ _) : greatestFactor power.toNat < nat64Limit)
      rw [hsame] at hgreatest
      obtain rfl := Option.some.inj hgreatest
      rw [hword, hword']
      exact nearestWord_mono Nat.one_pos Nat.one_pos (Nat.mul_le_mul_right 1 hfactor)
    obtain ⟨y, hy⟩ := Finite64.exists_mul_eq (finitePart?_eq_some hz) hless
    have hle : power ≤ greatestPower := by omega
    rw [scaleByTen, if_neg hneg, if_pos hle]
    exact ⟨y, congrArg finitePart? hy⟩

theorem exists_floatOf?_eq (negative : Bool) {significand : Nat} {power : Int}
    (hdigits : significand ≤ 10 ^ 17) (hpositive : 0 < significand)
    (hlimit : 0 ≤ power → significand * 10 ^ power.toNat ≤ productLimit) :
    ∃ y, floatOf? negative significand power = some y := by
  obtain ⟨x, hx, hword⟩ := exists_finitePart?_ofNat (lt_nat64Limit hdigits)
  obtain ⟨y, hy⟩ := exists_scaleByTen hword hdigits hpositive hlimit
  exact ⟨_, by rw [floatOf?, hx, Option.bind_some, hy, Option.map_some]⟩

/-! ## Texts of numbers -/

/-- A number in front of characters, by its sign and its three parts. -/
theorem readNumber?_of_parts {cs cs₁ cs₂ rest whole : List Char} {fraction : Option (List Char)}
    {power : Option (Bool × List Char)} (negative : Bool) (hsign : cs.head? ≠ some '-')
    (hwhole : wholeDigits? cs = some (whole, cs₁))
    (hfraction : fractionDigits? cs₁ = some (fraction, cs₂))
    (hpower : powerDigits? cs₂ = some (power, rest)) :
    readNumber? (if negative then '-' :: cs else cs) =
      (numberOf? negative whole fraction power).map fun n => (n, rest) := by
  cases negative with
  | true =>
    rw [if_pos rfl]
    unfold readNumber?
    simp only [Option.bind_eq_bind, hwhole, Option.bind_some, hfraction, hpower, Option.pure_def,
      Option.map_eq_bind, Function.comp_def]
  | false =>
    rw [if_neg Bool.false_ne_true]
    unfold readNumber?
    split
    next heq =>
      split at heq
      · exact absurd rfl hsign
      · cases heq
        simp only [Option.bind_eq_bind, hwhole, Option.bind_some, hfraction, hpower,
          Option.pure_def, Option.map_eq_bind, Function.comp_def]

theorem head?_append_ne_minus {whole : List Char} (hne : whole ≠ [])
    (hwhole : ∀ c ∈ whole, c.isDigit = true) (rest : List Char) :
    (whole ++ rest).head? ≠ some '-' := by
  rw [List.head?_append_of_ne_nil _ hne]
  intro hhead
  exact absurd (hwhole '-' (List.mem_of_mem_head? hhead)) (by decide)

/-- The digits that the text of a decimal shows, without the point, and the power of ten that scales
them: in positional notation a whole number has a zero behind its point. -/
def Decimal.Digits.written (d : Digits) : Nat × Int :=
  if 0 ≤ d.power ∧ d.power + digitCount d.digits ≤ 16 then
    (d.digits * 10 ^ (d.power.toNat + 1), -1)
  else (d.digits, d.power)

namespace Decimal.Digits

variable {d : Digits}

theorem magnitude_written (d : Digits) :
    (d.written.1 : ℚ) * 10 ^ d.written.2 = d.magnitude := by
  unfold written magnitude
  split
  · next hwhole =>
    rw [Nat.cast_mul, Nat.cast_pow, Nat.cast_ofNat, pow_succ, ← zpow_natCast,
      Int.toNat_of_nonneg hwhole.1, zpow_neg_one]
    field_simp
  · rfl

theorem written_pos (hpositive : 0 < d.digits) : 0 < d.written.1 := by
  unfold written
  split
  · exact Nat.mul_pos hpositive (Nat.pow_pos (by decide))
  · exact hpositive

theorem written_le (hdigits : d.digits ≤ 10 ^ 17) : d.written.1 ≤ 10 ^ 17 := by
  unfold written
  split
  · have hmul := Nat.mul_le_mul_right (10 ^ (d.power.toNat + 1)) (lt_pow_digitCount d.digits).le
    rw [← pow_add] at hmul
    exact hmul.trans (Nat.pow_le_pow_right (by decide) (by omega))
  · exact hdigits

/-- Digits in positional notation are those that the text shows. -/
theorem written_eq_of_saidBy {whole part : List Char} (hsaid : d.SaidBy whole part 0)
    (hpart : part ≠ []) (hplace : d.power + digitCount d.digits ≤ 16) :
    d.written = (digitsValue (whole ++ part), -(part.length : Int)) := by
  obtain ⟨k, hvalue, hpower, hk⟩ := hsaid.value
  have hlength := List.length_pos_iff.mpr hpart
  rw [Int.zero_sub] at hpower
  unfold written
  split
  · next hwhole =>
    have hten : k = d.power.toNat + 1 := by omega
    rw [hvalue, hten, show -(part.length : Int) = -1 by omega]
  · next hwhole =>
    have hzero : k = 0 := by omega
    rw [hvalue, hzero, pow_zero, mul_one, hpower, hzero, Nat.cast_zero, Int.sub_zero]

/-- The text of a decimal is read as the digits that it shows, scaled. -/
theorem readNumber?_text (hpositive : 0 < d.digits) (hdigits : d.digits ≤ 10 ^ 17)
    (hplace : -330 ≤ d.power + digitCount d.digits ∧ d.power + digitCount d.digits ≤ 310)
    (negative : Bool) {rest : List Char} (hrest : EndsNumber rest) :
    readNumber? (if negative then '-' :: ((d.text .json).toList ++ rest)
        else (d.text .json).toList ++ rest) =
      (floatOf? negative d.written.1 d.written.2).map fun y => (.float y, rest) := by
  have hlimit := lt_nat64Limit (written_le hdigits)
  unfold Digits.text
  dsimp only [Layout.json]
  by_cases hpositional : (decide (-4 ≤ d.power + digitCount d.digits) &&
      decide (d.power + digitCount d.digits ≤ 16)) = true
  · simp only [if_pos hpositional]
    rw [Bool.and_eq_true, decide_eq_true_eq, decide_eq_true_eq] at hpositional
    obtain ⟨whole, part, hsaid, hpart, htext⟩ := d.exists_positionalText
    rw [written_eq_of_saidBy hsaid hpart hpositional.2] at hlimit ⊢
    have hpointed : '.' :: part = pointed part := by
      cases part with
      | nil => exact absurd rfl hpart
      | cons c cs => rfl
    have hends : ∀ c ∈ rest.head?, c.isDigit = false ∧ c ≠ '.' :=
      fun c hc => ⟨(hrest c hc).1, (hrest c hc).2.1⟩
    rw [htext _ rfl, hpointed, List.append_assoc, readNumber?_of_parts negative
      (head?_append_ne_minus hsaid.whole_ne hsaid.isDigit_whole _)
      (wholeDigits?_append hsaid.whole_ne hsaid.isDigit_whole (hsaid.leads hpositive)
        (by rw [← hpointed]; rintro c ⟨⟩; rfl))
      (fractionDigits?_pointed hsaid.isDigit_part hends) (powerDigits?_of_endsNumber hrest),
      numberOf?_fraction hlimit negative hpart, Option.map_map]
    rfl
  · simp only [if_neg hpositional]
    rw [Bool.and_eq_true, decide_eq_true_eq, decide_eq_true_eq] at hpositional
    obtain ⟨whole, part, hsaid, htext⟩ := d.exists_scientificText
    obtain ⟨k, hvalue, hpower, hk⟩ := hsaid.value
    have hzero : k = 0 := by omega
    subst hzero
    rw [pow_zero, mul_one] at hvalue
    have hwritten : d.written = (d.digits, d.power) := if_neg (by omega)
    rw [hwritten] at hlimit ⊢
    have hstop : ∀ cs : List Char, ∀ c ∈ (pointed part ++ 'e' :: cs).head?, c.isDigit = false := by
      cases part <;> rintro cs c ⟨⟩ <;> rfl
    have hbound : (d.power + digitCount d.digits - 1).natAbs < powerLimit := by
      unfold powerLimit
      omega
    rw [htext, List.append_assoc, List.append_assoc, List.cons_append]
    generalize d.power + digitCount d.digits - 1 = power at hsaid htext hpower hbound ⊢
    have habs : (if decide (power < 0) = true then -(power.natAbs : Int) else power.natAbs) =
        power := by
      split
      · next hneg =>
        rw [decide_eq_true_eq] at hneg
        omega
      · next hneg =>
        rw [decide_eq_true_eq] at hneg
        omega
    rw [readNumber?_of_parts negative (head?_append_ne_minus hsaid.whole_ne hsaid.isDigit_whole _)
      (wholeDigits?_append hsaid.whole_ne hsaid.isDigit_whole (hsaid.leads hpositive) (hstop _))
      (fractionDigits?_pointed hsaid.isDigit_part (by rintro c ⟨⟩; exact ⟨rfl, by decide⟩))
      (powerDigits?_intText power hrest),
      numberOf?_power (by rwa [hvalue]) negative (by rwa [digitsValue_natText]),
      hvalue, digitsValue_natText, habs, hpower, Nat.cast_zero, Int.sub_zero, Option.map_map]
    rfl

end Decimal.Digits

namespace Decimal.Finite64

variable {x : Finite64}

/-- Below the greatest number, what lies in the interval of a number is at most the limit. -/
theorem le_productLimit (h : x.isZero = false) (hless : (x.word : Nat) + 1 < wordLimit)
    {digits power : Nat} (hnear : x.Near (digits * 10 ^ power)) :
    digits * 10 ^ power ≤ productLimit := by
  obtain ⟨-, hhigh⟩ := near_ends h hnear
  have hunits : (0 : ℚ) < 4 * unitsOfOne :=
    mul_pos (by norm_num) (Nat.cast_pos.mpr unitsOfOne_pos)
  have hends : (4 * x.significand + 2) * 2 ^ x.doublings ≤ productLimit * (4 * unitsOfOne) := by
    have hword := x.word_eq_doublings
    have hs := x.significand_lt
    have hlimit : productLimit * (4 * unitsOfOne) = (Nat.pow 2 55 - 6) * Nat.pow 2 2045 := by
      unfold productLimit unitsOfOne
      decide +kernel
    have hdoublings : x.doublings ≤ 2045 := by
      by_contra hnot
      have hnormal := x.le_significand (by omega)
      unfold wordLimit fractionLimit at hless
      unfold fractionLimit at hword hnormal
      omega
    have htop (k : Nat) (hk : x.doublings + k ≤ 2045) :
        2 ^ x.doublings * 2 ^ k ≤ Nat.pow 2 2045 := by
      rw [← pow_add]
      exact Nat.pow_le_pow_right (by decide) hk
    have hcount : Nat.pow 2 55 - 6 = 36028797018963962 := by decide
    rw [hlimit, hcount]
    generalize Nat.pow 2 2045 = top at htop
    unfold fractionLimit at hs
    rcases Nat.lt_or_eq_of_le hdoublings with hlt | heq
    · calc (4 * x.significand + 2) * 2 ^ x.doublings
          ≤ (36028797018963962 * 2 ^ 1) * 2 ^ x.doublings := Nat.mul_le_mul_right _ (by omega)
        _ = 36028797018963962 * (2 ^ x.doublings * 2 ^ 1) := by ring
        _ ≤ 36028797018963962 * top := Nat.mul_le_mul_left _ (htop 1 hlt)
    · have hless' : 4 * x.significand + 2 ≤ 36028797018963962 := by
        rw [heq] at hword
        unfold wordLimit fractionLimit at hless
        unfold fractionLimit at hword
        omega
      have hone := htop 0 hdoublings
      rw [pow_zero, mul_one] at hone
      exact Nat.mul_le_mul hless' hone
  have hmul := mul_le_mul_of_nonneg_right hhigh hunits.le
  rw [mul_assoc _ x.quarter, quarter_eq] at hmul
  have hcast : ((digits * 10 ^ power : Nat) : ℚ) * (4 * unitsOfOne) ≤
      productLimit * (4 * unitsOfOne) := by
    push_cast
    exact hmul.trans (by exact_mod_cast hends)
  exact_mod_cast le_of_mul_le_mul_right hcast hunits

/-- The greatest number has a shortest decimal that can be scaled. -/
theorem isSome_floatOf?_greatest : ∀ negative sign : Bool,
    (floatOf? negative (shortest .toEven ⟨sign, ⟨wordLimit - 1, by decide⟩⟩).written.1
      (shortest .toEven ⟨sign, ⟨wordLimit - 1, by decide⟩⟩).written.2).isSome = true := by
  decide +kernel

/-- The shortest decimal of a number can be scaled. -/
theorem exists_floatOf?_shortest (h : x.isZero = false) (negative : Bool) :
    ∃ y, floatOf? negative (shortest .toEven x).written.1 (shortest .toEven x).written.2 =
      some y := by
  have hnear := near_shortest .toEven h
  rw [← Digits.magnitude_written] at hnear
  by_cases hless : (x.word : Nat) + 1 < wordLimit
  · refine exists_floatOf?_eq negative (Digits.written_le (digits_shortest_le .toEven h))
      (digits_pos_of_near h hnear) fun hpower => le_productLimit h hless ?_
    rwa [← Int.toNat_of_nonneg hpower, zpow_natCast] at hnear
  · have hgreatest : x = ⟨x.negative, ⟨wordLimit - 1, by decide⟩⟩ := by
      have hlast : (x.word : Nat) = wordLimit - 1 := by omega
      have hword : x.word = ⟨wordLimit - 1, by decide⟩ := Fin.ext hlast
      rw [← hword]
    rw [hgreatest]
    exact Option.isSome_iff_exists.mp (isSome_floatOf?_greatest negative x.negative)

/-- The text of a number in front of what ends a number, with the sign apart. -/
theorem text_json_append (x : Finite64) (rest : List Char) : (x.text .json).toList ++ rest =
    if x.negative then '-' :: ((if x.isZero then "0.0"
        else (shortest .toEven x).text .json).toList ++ rest)
      else (if x.isZero then "0.0" else (shortest .toEven x).text .json).toList ++ rest := by
  unfold text
  have hzero : "0" ++ Layout.json.whole = "0.0" := rfl
  rw [hzero]
  cases x.negative <;> simp [Layout.json]

/-- The text of a zero is read as the zero. -/
theorem readNumber?_text_of_isZero (h : x.isZero = true) {rest : List Char}
    (hrest : EndsNumber rest) :
    readNumber? ((x.text .json).toList ++ rest) = some (.float x, rest) := by
  have hx : x = .zero x.negative := by
    have hword : x.word = ⟨0, by decide⟩ := Fin.ext (of_decide_eq_true h)
    rw [zero, ← hword]
  have hfloat : ∀ negative, floatOf? negative (digitsValue (['0'] ++ ['0']))
      (-(['0'].length : Int)) = some (.zero negative) := by
    decide +kernel
  have hdigit : ∀ c ∈ ['0'], c.isDigit = true := List.forall_mem_singleton.mpr rfl
  rw [text_json_append, if_pos h]
  refine (readNumber?_of_parts x.negative
    (head?_append_ne_minus (List.cons_ne_nil '0' []) hdigit _)
    (wholeDigits?_append (List.cons_ne_nil '0' []) hdigit (.inl rfl) (by rintro c ⟨⟩; rfl))
    (fractionDigits?_pointed hdigit fun c hc => ⟨(hrest c hc).1, (hrest c hc).2.1⟩)
    (powerDigits?_of_endsNumber hrest)).trans ?_
  rw [numberOf?_fraction (by decide) x.negative (List.cons_ne_nil _ _), hfloat, Option.map_some,
    Option.map_some, ← hx]

/-- The text of any other number is read as its shortest decimal, scaled. -/
theorem readNumber?_text_of_floatOf? (h : x.isZero = false) {y : Finite64}
    (hy : floatOf? x.negative (shortest .toEven x).written.1 (shortest .toEven x).written.2 =
      some y)
    {rest : List Char} (hrest : EndsNumber rest) :
    readNumber? ((x.text .json).toList ++ rest) = some (.float y, rest) := by
  have hnear := near_shortest .toEven h
  rw [text_json_append]
  simp only [h, Bool.false_eq_true, if_false]
  refine (Digits.readNumber?_text (digits_pos_of_near h hnear) (digits_shortest_le .toEven h)
    (place_of_near h hnear) x.negative hrest).trans ?_
  rw [hy, Option.map_some]

/-- The text of a number is read as a number. -/
theorem exists_readNumber?_text (x : Finite64) : ∃ y, ∀ rest, EndsNumber rest →
    readNumber? ((x.text .json).toList ++ rest) = some (.float y, rest) := by
  cases h : x.isZero with
  | true => exact ⟨x, fun rest hrest => readNumber?_text_of_isZero h hrest⟩
  | false =>
    obtain ⟨y, hy⟩ := exists_floatOf?_shortest h x.negative
    exact ⟨y, fun rest hrest => readNumber?_text_of_floatOf? h hy hrest⟩

/-- The number that the text of a number is read as. -/
def reread (x : Finite64) : Finite64 :=
  match readNumber? (x.text .json).toList with
  | some (.float y, _) => y
  | _ => x

/-- The text of a number is read as its number read again, whatever follows. -/
theorem readNumber?_text (x : Finite64) {rest : List Char} (h : EndsNumber rest) :
    readNumber? ((x.text .json).toList ++ rest) = some (.float x.reread, rest) := by
  obtain ⟨y, hy⟩ := x.exists_readNumber?_text
  have hself := hy [] endsNumber_nil
  rw [List.append_nil] at hself
  rw [hy rest h, reread, hself]

end Decimal.Finite64

/-! ## Integers -/

/-- The integers that stay integers when they are read from JSON text. -/
def Json.KeepsInt (n : Int) : Prop := -(int64Limit : Int) ≤ n ∧ n < nat64Limit

/-- Digits without a point and a power of ten in front of what ends a number. -/
theorem readNumber?_natText (negative : Bool) (m : Nat) {rest : List Char}
    (hrest : EndsNumber rest) :
    readNumber? (if negative then '-' :: ((toString m).toList ++ rest)
        else (toString m).toList ++ rest) =
      (numberOf? negative (toString m).toList none none).map fun n => (n, rest) := by
  have hdigits : ∀ c ∈ (toString m).toList, c.isDigit = true :=
    fun _ => Sql.isDigit_of_mem_natText
  have hleads : (toString m).toList = ['0'] ∨ (toString m).toList.head? ≠ some '0' := by
    cases m with
    | zero => exact .inl rfl
    | succ m => exact .inr (head?_natText_ne m.succ_pos)
  exact readNumber?_of_parts negative (head?_append_ne_minus (Sql.natText_ne_nil m) hdigits rest)
    (wholeDigits?_append (Sql.natText_ne_nil m) hdigits hleads fun c hc => (hrest c hc).1)
    (fractionDigits?_pointed (nofun : ∀ c ∈ [], _) fun c hc => ⟨(hrest c hc).1, (hrest c hc).2.1⟩)
    (powerDigits?_of_endsNumber hrest)

theorem numberOf?_natText (negative : Bool) {m : Nat} (hm : m < nat64Limit) :
    numberOf? negative (toString m).toList none none =
      if !negative then some (.int m)
      else if m = 0 || int64Limit < m then (floatOf? true m 0).map .float
      else some (.int (-(m : Int))) := by
  have hvalue := digitsValue_natText m
  have hdigits : appendDigits 0 (toString m).toList = _ := appendDigits_eq (by omega)
  rw [Nat.zero_mul, Nat.zero_add, hvalue] at hdigits
  unfold numberOf?
  rw [hdigits]
  simp

/-- The text of an integer is read as the integer, whatever follows. -/
theorem readNumber?_intText {n : Int} (hn : Json.KeepsInt n) {rest : List Char}
    (hrest : EndsNumber rest) :
    readNumber? ((toString n).toList ++ rest) = some (.int n, rest) := by
  obtain ⟨hlow, hhigh⟩ := hn
  have hlimits : int64Limit < nat64Limit := by decide
  cases n with
  | ofNat m =>
    have hm : m < nat64Limit := by
      rw [Int.ofNat_eq_natCast] at hhigh
      omega
    have hread := readNumber?_natText false m hrest
    rw [numberOf?_natText false hm] at hread
    exact hread
  | negSucc m =>
    have hm : m + 1 ≤ int64Limit := by
      rw [Int.negSucc_eq] at hlow
      omega
    have hread := readNumber?_natText true (m + 1) hrest
    have hint : ¬(m + 1 = 0 || decide (int64Limit < m + 1)) = true := by
      simp only [Bool.or_eq_true, decide_eq_true_eq]
      omega
    rw [if_pos rfl, numberOf?_natText true (hm.trans_lt hlimits), if_neg (by decide),
      if_neg hint] at hread
    rw [Sql.negText_toList]
    exact hread

/-! ## Numbers -/

namespace Number

/-- The number that the text of a number is read as. -/
def reread : Number → Number
  | .int n => .int n
  | .float x => .float x.reread

/-- The numbers that come from JSON text. -/
def Kept : Number → Prop
  | .int n => Json.KeepsInt n
  | .float _ => True

/-- The text of a number is read as its number read again, whatever follows. -/
theorem readNumber?_text {n : Number} (hn : n.Kept) {rest : List Char} (hrest : EndsNumber rest) :
    readNumber? (n.text.toList ++ rest) = some (n.reread, rest) := by
  cases n with
  | int n => exact readNumber?_intText hn hrest
  | float x => exact x.readNumber?_text hrest

end Number

theorem appendDigits_lt {n : Nat} (h : n < nat64Limit) (ds : List Char) :
    (appendDigits n ds).1 < nat64Limit := by
  induction ds generalizing n with
  | nil => exact h
  | cons d ds ih =>
    rw [appendDigits]
    split
    · next hless => exact ih hless
    · exact h

theorem kept_of_numberOf? {negative : Bool} {whole : List Char} {fraction : Option (List Char)}
    {power : Option (Bool × List Char)} {n : Number}
    (h : numberOf? negative whole fraction power = some n) : n.Kept := by
  have hfloat {x : Option Finite64} (h : x.map Number.float = some n) : n.Kept := by
    obtain ⟨y, -, rfl⟩ := Option.map_eq_some_iff.mp h
    trivial
  have hlimit := appendDigits_lt (by decide : 0 < nat64Limit) whole
  unfold numberOf? at h
  generalize appendDigits 0 whole = digits at h hlimit
  obtain ⟨significand, dropped⟩ := digits
  dsimp only at h hlimit
  split at h
  · split at h
    · exact hfloat h
    · split at h
      · obtain rfl := Option.some.inj h
        unfold Number.Kept Json.KeepsInt
        omega
      · split at h
        · exact hfloat h
        · next hsmall =>
          obtain rfl := Option.some.inj h
          simp only [Bool.or_eq_true, decide_eq_true_eq] at hsmall
          unfold Number.Kept Json.KeepsInt
          omega
  · split at h
    · exact hfloat h
    · split at h
      · split at h
        · cases h
        · obtain rfl := Option.some.inj h
          trivial
      · exact hfloat h

theorem isDigit_of_wholeDigits? {c : Char} {cs : List Char} {read : List Char × List Char}
    (h : wholeDigits? (c :: cs) = some read) : c.isDigit = true := by
  by_contra hnot
  rw [wholeDigits?, takeDigits, List.takeWhile_cons_of_neg hnot] at h
  cases h

/-- A number begins with a minus or a digit. -/
theorem exists_of_readNumber? {cs : List Char} {read : Number × List Char}
    (h : readNumber? cs = some read) :
    ∃ c rest, cs = c :: rest ∧ (c = '-' ∨ c.isDigit = true) := by
  cases cs with
  | nil => cases h
  | cons c cs =>
    refine ⟨c, cs, rfl, ?_⟩
    by_cases hminus : c = '-'
    · exact .inl hminus
    · refine .inr ?_
      unfold readNumber? at h
      split at h
      next heq =>
        split at heq
        · next hcs =>
          cases hcs
          exact absurd rfl hminus
        · cases heq
          obtain ⟨whole, hwhole, -⟩ := Option.bind_eq_some_iff.mp h
          exact isDigit_of_wholeDigits? hwhole

/-- A number that is read comes from JSON text. -/
theorem kept_of_readNumber? {cs rest : List Char} {n : Number}
    (h : readNumber? cs = some (n, rest)) : n.Kept := by
  unfold readNumber? at h
  simp only [Option.bind_eq_bind, Option.bind_eq_some_iff, Option.pure_def, Option.some.injEq,
    Prod.mk.injEq, Prod.exists] at h
  obtain ⟨whole, -, -, fraction, -, -, power, -, -, number, hnumber, rfl, -⟩ := h
  exact kept_of_numberOf? hnumber

end JsonSql
