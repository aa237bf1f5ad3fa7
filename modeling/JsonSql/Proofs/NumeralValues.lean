import JsonSql.Proofs.Numerals
import JsonSql.Proofs.ValueLists
import Mathlib.Algebra.Field.Rat
import Mathlib.Algebra.Order.Field.Basic
import Mathlib.Data.List.TakeWhile
import Mathlib.Data.Nat.Digits.Defs
import Mathlib.Tactic.FieldSimp
import Mathlib.Tactic.Ring

set_option autoImplicit false

/-!
# What numerals denote

A numeral denotes a rational number (`Numeral.value`).  An integer in digits denotes itself, and a
positive decimal is written as a numeral that denotes it, in positional notation as well as with a
power of ten (`Digits.readNumeral?_text`).
-/

namespace JsonSql.Decimal

/-! ## Values -/

/-- The number that a numeral denotes, but for its sign. -/
def Numeral.magnitude (n : Numeral) : ℚ := n.digits * 10 ^ n.power

/-- The number that a numeral denotes. -/
def Numeral.value (n : Numeral) : ℚ := if n.negative then -n.magnitude else n.magnitude

/-- The number that a decimal denotes. -/
def Digits.magnitude (d : Digits) : ℚ := d.digits * 10 ^ d.power

/-- The number that characters denote, if they are a numeral with or without a sign. -/
def numberValue? (cs : List Char) : Option ℚ :=
  (readNumeral? (takeSign cs).1 (takeSign cs).2).map Numeral.value

/-! ## Digits -/

theorem digitsValue_append (cs ds : List Char) :
    digitsValue (cs ++ ds) = digitsValue cs * 10 ^ ds.length + digitsValue ds := by
  have hfold (ds : List Char) (n : Nat) :
      ds.foldl (fun n d => 10 * n + (d.toNat - 48)) n = n * 10 ^ ds.length + digitsValue ds := by
    induction ds generalizing n with
    | nil => simp [digitsValue]
    | cons d ds ih =>
      rw [digitsValue, List.foldl_cons, List.foldl_cons, ih, ih (10 * 0 + (d.toNat - 48)),
        List.length_cons]
      ring
  rw [digitsValue, List.foldl_append, hfold]
  rfl

theorem takeDigits_eq_self {ds : List Char} (h : ∀ c ∈ ds, c.isDigit = true) :
    takeDigits ds = (ds, []) := by
  rw [takeDigits, List.takeWhile_eq_self_iff.mpr h, List.dropWhile_eq_nil_iff.mpr h]

theorem takeDigits_append {ds rest : List Char} (h : ∀ c ∈ ds, c.isDigit = true)
    (hrest : ∀ c ∈ rest.head?, c.isDigit = false) : takeDigits (ds ++ rest) = (ds, rest) := by
  obtain ⟨htake, hdrop⟩ := Sql.takeWhile_append_stop h hrest
  rw [takeDigits, htake, hdrop]

/-- Digits alone are the number that they say. -/
theorem readNumeral?_digits (negative : Bool) {ds : List Char} (hne : ds ≠ [])
    (h : ∀ c ∈ ds, c.isDigit = true) :
    readNumeral? negative ds = some ⟨negative, digitsValue ds, 0⟩ := by
  simp [readNumeral?, takeDigits_eq_self h, hne, readPower?]

theorem digitsValue_natText (n : Nat) : digitsValue (toString n).toList = n := by
  rw [Sql.natText_toList]
  exact Nat.ofDigitChars_ten_toDigits

/-! ## Integers -/

/-- The numeral of an integer denotes it. -/
theorem numberValue?_intText (n : Int) : numberValue? (toString n).toList = some (n : ℚ) := by
  have hdigits (m : Nat) (negative : Bool) :
      readNumeral? negative (toString m).toList = some ⟨negative, m, 0⟩ := by
    rw [readNumeral?_digits negative (Sql.natText_ne_nil m) fun _ => Sql.isDigit_of_mem_natText,
      digitsValue_natText]
  cases n with
  | ofNat m =>
    have htext : toString (Int.ofNat m) = toString m := rfl
    rw [numberValue?, htext, takeSign_natText, hdigits]
    simp [Numeral.value, Numeral.magnitude]
  | negSucc m =>
    rw [numberValue?, Sql.negText_toList, takeSign, hdigits]
    simp [Numeral.value, Numeral.magnitude, Int.negSucc_eq]

theorem readInt?_eq_some {s : String} {n : Int} (h : readInt? s = some n) :
    ∃ ds : List Char, ds ≠ [] ∧ (∀ c ∈ ds, c.isDigit = true) ∧ (takeSign s.toList).2 = ds ∧
      n = if (takeSign s.toList).1 then -(digitsValue ds : Int) else digitsValue ds := by
  unfold readInt? at h
  dsimp only at h
  cases hm : readDigits? (takeSign s.toList).2 with
  | none =>
    rw [hm] at h
    cases h
  | some m =>
    rw [hm] at h
    rw [readDigits?] at hm
    obtain ⟨⟨hne, hall⟩, hm⟩ := Option.ite_none_right_eq_some.mp hm
    refine ⟨_, hne, List.all_eq_true.mp hall, rfl, ?_⟩
    rw [Option.some.inj hm]
    exact (Option.some.inj h).symm

theorem toLower_of_isDigit {c : Char} (h : c.isDigit = true) : c.toLower = c := by
  rw [Char.isDigit, Bool.and_eq_true, decide_eq_true_eq, decide_eq_true_eq] at h
  unfold Char.toLower
  refine dif_neg fun hupper => ?_
  have hlow : 'A'.val ≤ c.val := hupper.1
  exact absurd (UInt32.le_trans hlow h.2) (by decide)

/-- What begins with a digit has no sign. -/
theorem takeSign_of_isDigit {cs : List Char} (h : cs.head?.any Char.isDigit = true) :
    takeSign cs = (false, cs) := by
  unfold takeSign
  split
  · cases h
  · cases h
  · rfl

/-- What begins with a digit is no word. -/
theorem ofList_map_toLower_ne {cs : List Char} (h : cs.head?.any Char.isDigit = true)
    {word : String} (hword : word.toList.head?.any Char.isDigit = false) :
    String.ofList (cs.map Char.toLower) ≠ word := by
  rintro rfl
  cases cs with
  | nil => cases h
  | cons c cs =>
    have hc : c.isDigit = true := h
    rw [String.toList_ofList, List.map_cons, toLower_of_isDigit hc, List.head?_cons,
      Option.any_some, hc] at hword
    cases hword

/-- What begins with a digit is read as a numeral. -/
theorem readBinary64?_of_isDigit {s : String} {negative : Bool} {cs : List Char}
    (hsign : takeSign s.toList = (negative, cs)) (h : cs.head?.any Char.isDigit = true) :
    readBinary64? s = (readNumeral? negative cs).map Numeral.toBinary64 := by
  have hword (word : String) (hword : word.toList.head?.any Char.isDigit = false) :
      String.ofList (cs.map Char.toLower) ≠ word :=
    ofList_map_toLower_ne h hword
  unfold readBinary64?
  rw [hsign]
  dsimp only
  rw [decide_eq_false (hword "inf" rfl), decide_eq_false (hword "infinity" rfl), Bool.or_false,
    if_neg Bool.false_ne_true, if_neg (hword "nan" rfl)]

theorem head?_any_isDigit {ds : List Char} (hne : ds ≠ []) (h : ∀ c ∈ ds, c.isDigit = true) :
    ds.head?.any Char.isDigit = true := by
  cases ds with
  | nil => exact absurd rfl hne
  | cons d ds => exact h d List.mem_cons_self

theorem head?_any_of_isNumeral {cs : List Char} (h : Sql.IsNumeral cs) :
    cs.head?.any Char.isDigit = true := by
  obtain ⟨hne, hwhole, -, -⟩ := h
  rename_i whole part power
  cases whole with
  | nil => exact absurd rfl hne
  | cons d ds => exact hwhole d List.mem_cons_self

theorem digitCount_le {n : Nat} (h : n < nat64Limit) : digitCount n ≤ 20 :=
  Nat.toDigits_length 10 n 20 (by decide) (Nat.lt_of_lt_of_le h (by decide))

/-- The binary64 number of an integer in digits is the nearest one to it. -/
theorem readBinary64?_of_readInt? {s : String} {n : Int} (h : readInt? s = some n)
    (hpos : 0 < n) (hn : n < nat64Limit) : readBinary64? s = some (Binary64.ofInt n) := by
  obtain ⟨ds, hne, hall, hds, hvalue⟩ := readInt?_eq_some h
  have hsign : (takeSign s.toList).1 = false := by
    by_contra hnot
    rw [if_pos (by simpa using hnot)] at hvalue
    omega
  rw [hsign, if_neg Bool.false_ne_true] at hvalue
  have hplace := digitCount_le (n := digitsValue ds) (by omega)
  have hbinary : Numeral.toBinary64 ⟨false, digitsValue ds, 0⟩ = Binary64.ofInt n := by
    rw [Numeral.toBinary64, if_neg (by simp; omega), if_neg (by simp; omega), hvalue,
      Binary64.ofInt, decide_eq_false (by omega)]
    simp
  rw [readBinary64?_of_isDigit (Prod.ext hsign hds) (head?_any_isDigit hne hall),
    readNumeral?_digits false hne hall, ← hbinary]
  rfl

/-! ## Counts of digits -/

theorem digitsValue_lt {ds : List Char} (h : ∀ c ∈ ds, c.isDigit = true) :
    digitsValue ds < 10 ^ ds.length := by
  induction ds with
  | nil => decide
  | cons d ds ih =>
    obtain ⟨hd, hds⟩ := List.forall_mem_cons.mp h
    have hrest := ih hds
    have hfirst : digitsValue [d] ≤ 9 := by
      have hle : d.toNat ≤ 57 := (of_decide_eq_true (Bool.and_eq_true_iff.mp hd).2 : _)
      show 10 * 0 + (d.toNat - 48) ≤ 9
      omega
    have hmul := Nat.mul_le_mul_right (10 ^ ds.length) hfirst
    rw [← List.singleton_append, digitsValue_append, List.length_append, List.length_singleton,
      Nat.pow_add]
    omega

theorem length_natText (n : Nat) : (toString n).toList.length = digitCount n := by
  rw [Sql.natText_toList, digitCount]

/-- A number is less than the power of ten of its count of digits. -/
theorem lt_pow_digitCount (n : Nat) : n < 10 ^ digitCount n := by
  have hvalue : digitsValue (toString n).toList < _ :=
    digitsValue_lt fun _ => Sql.isDigit_of_mem_natText
  rwa [digitsValue_natText, length_natText] at hvalue

/-- A number that is not zero has its first digit at the place of its count of digits. -/
theorem pow_le_of_digitCount {n : Nat} (h : 0 < n) : 10 ^ (digitCount n - 1) ≤ n := by
  by_contra hnot
  by_cases hone : digitCount n - 1 = 0
  · rw [hone] at hnot
    omega
  · have hlength := Nat.toDigits_length 10 n (digitCount n - 1) (by omega) (by omega)
    unfold digitCount at hlength hone
    omega

/-- The digits of a number that is not zero begin with another digit than zero. -/
theorem head?_natText_ne {n : Nat} (h : 0 < n) : (toString n).toList.head? ≠ some '0' := by
  intro hhead
  have hcount := length_natText n
  have hvalue := digitsValue_natText n
  have hdigits : ∀ c ∈ (toString n).toList, c.isDigit = true :=
    fun _ => Sql.isDigit_of_mem_natText
  cases hcs : (toString n).toList with
  | nil => exact Sql.natText_ne_nil n hcs
  | cons c cs =>
    rw [hcs] at hhead hcount hvalue hdigits
    obtain rfl : c = '0' := Option.some.inj hhead
    have hless := digitsValue_lt (List.forall_mem_cons.mp hdigits).2
    have hpow := pow_le_of_digitCount h
    have hsame : digitsValue ('0' :: cs) = digitsValue cs := rfl
    rw [← hcount, List.length_cons, Nat.succ_sub_one] at hpow
    omega

/-! ## Digits around a point -/

/-- Digits behind a point, which is left out with nothing behind it. -/
def pointed : List Char → List Char
  | [] => []
  | part => '.' :: part

/-- Digits around a point are the number that they say together. -/
theorem readNumeral?_pointed (negative : Bool) {whole part : List Char} (hne : whole ≠ [])
    (hwhole : ∀ c ∈ whole, c.isDigit = true) (hpart : ∀ c ∈ part, c.isDigit = true)
    {rest : List Char} (hrest : ∀ c ∈ rest.head?, c.isDigit = false ∧ c ≠ '.') {power : Int}
    (hpower : readPower? rest = some power) :
    readNumeral? negative (whole ++ (pointed part ++ rest)) =
      some ⟨negative, digitsValue (whole ++ part), power - part.length⟩ := by
  have hstop : ∀ c ∈ rest.head?, c.isDigit = false := fun c hc => (hrest c hc).1
  cases part with
  | nil =>
    have htake : takeDigits (whole ++ rest) = (whole, rest) := takeDigits_append hwhole hstop
    rw [pointed, List.nil_append, readNumeral?, htake, List.append_nil]
    cases rest with
    | nil => simp [hne, hpower]
    | cons c cs => simp [(hrest c rfl).2, hne, hpower]
  | cons d ds =>
    have htake : takeDigits (whole ++ '.' :: (d :: ds ++ rest)) =
        (whole, '.' :: (d :: ds ++ rest)) := takeDigits_append hwhole (by rintro c ⟨⟩; rfl)
    have htake' : takeDigits (d :: ds ++ rest) = (d :: ds, rest) := takeDigits_append hpart hstop
    show readNumeral? negative (whole ++ '.' :: (d :: ds ++ rest)) = _
    rw [readNumeral?, htake]
    simp only [htake', hne, hpower]
    simp

/-! ## Decimals -/

theorem digitsValue_zeros_right (count : Nat) (ds : List Char) :
    digitsValue (ds ++ (zeros count).toList) = digitsValue ds * 10 ^ count := by
  have hzeros : digitsValue (zeros count).toList = 0 := by
    rw [zeros, String.toList_ofList]
    induction count with
    | zero => rfl
    | succ count ih => exact ih
  rw [digitsValue_append, hzeros, zeros, String.toList_ofList, List.length_replicate, Nat.add_zero]

theorem digitsValue_zeros_left (count : Nat) (ds : List Char) :
    digitsValue ((zeros count).toList ++ ds) = digitsValue ds := by
  rw [zeros, String.toList_ofList]
  induction count with
  | zero => rfl
  | succ count ih => exact ih

namespace Digits

variable {d : Digits} {whole part : List Char} {power : Int}

/-- Digits in front of a point and behind it with a power of ten say a decimal.  They are its digits
up to zeros behind a whole number. -/
structure SaidBy (d : Digits) (whole part : List Char) (power : Int) : Prop where
  whole_ne : whole ≠ []
  isDigit_whole : ∀ c ∈ whole, c.isDigit = true
  isDigit_part : ∀ c ∈ part, c.isDigit = true
  leads : 0 < d.digits → whole = ['0'] ∨ whole.head? ≠ some '0'
  value : ∃ k : Nat, digitsValue (whole ++ part) = d.digits * 10 ^ k ∧
    power - part.length = d.power - k ∧ (k = 0 ∨ power = 0 ∧ k = d.power + 1)

theorem SaidBy.magnitude_eq (h : d.SaidBy whole part power) (negative : Bool) :
    Numeral.magnitude ⟨negative, digitsValue (whole ++ part), power - part.length⟩ =
      d.magnitude := by
  obtain ⟨k, hvalue, hpower, -⟩ := h.value
  rw [Numeral.magnitude, magnitude, hvalue, hpower, zpow_sub₀ (by norm_num), zpow_natCast]
  push_cast
  field_simp

/-- In positional notation a decimal is said by digits around a point. -/
theorem exists_positionalText (d : Digits) :
    ∃ whole part, d.SaidBy whole part 0 ∧ part ≠ [] ∧ ∀ layout : Layout, layout.whole = ".0" →
      (positionalText layout d).toList = whole ++ '.' :: part := by
  have hne := Sql.natText_ne_nil d.digits
  have hdigits : ∀ c ∈ (toString d.digits).toList, c.isDigit = true :=
    fun _ => Sql.isDigit_of_mem_natText
  have hzeros (n : Nat) : ∀ c ∈ (zeros n).toList, c.isDigit = true :=
    fun _ => Sql.isDigit_of_mem_zeros
  have hvalue := digitsValue_natText d.digits
  have hlength : (zeros ((-d.power).toNat - (toString d.digits).length)).toList.length =
      (-d.power).toNat - (toString d.digits).toList.length := by
    rw [zeros, String.toList_ofList, List.length_replicate, String.length_toList]
  unfold positionalText
  dsimp only
  by_cases hpower : 0 ≤ d.power
  · -- a whole number, with zeros behind it
    refine ⟨(toString d.digits).toList ++ (zeros d.power.toNat).toList, ['0'],
      ⟨List.append_ne_nil_of_left_ne_nil hne _,
        List.forall_mem_append.mpr ⟨hdigits, hzeros d.power.toNat⟩,
        List.forall_mem_singleton.mpr rfl, fun hpos => .inr ?_, d.power.toNat + 1, ?_, ?_, ?_⟩,
      List.cons_ne_nil _ _, fun layout hlayout => ?_⟩
    · rw [List.head?_append_of_ne_nil _ hne]
      exact head?_natText_ne hpos
    · rw [digitsValue_append, digitsValue_zeros_right, hvalue, pow_succ, ← mul_assoc]
      rfl
    · rw [List.length_singleton]
      omega
    · exact .inr ⟨rfl, by omega⟩
    · rw [if_pos hpower, hlayout]
      simp
  · simp only [if_neg hpower]
    by_cases hless : (toString d.digits).length ≤ (-d.power).toNat
    · -- less than one, with zeros in front
      refine ⟨['0'], (zeros ((-d.power).toNat - (toString d.digits).length)).toList ++
          (toString d.digits).toList,
        ⟨List.cons_ne_nil _ _, List.forall_mem_singleton.mpr rfl,
          List.forall_mem_append.mpr ⟨hzeros _, hdigits⟩, fun _ => .inl rfl, 0, ?_, ?_, .inl rfl⟩,
        List.append_ne_nil_of_right_ne_nil _ hne, fun layout _ => ?_⟩
      · have hone : digitsValue ['0'] = 0 := rfl
        rw [digitsValue_append, digitsValue_zeros_left, hvalue, hone]
        omega
      · rw [List.length_append, hlength]
        rw [← String.length_toList] at hless
        omega
      · rw [if_pos hless]
        simp
    · have hmore : (-d.power).toNat < (toString d.digits).toList.length := by
        rw [String.length_toList]
        omega
      have hwhole : (toString d.digits).toList.take
          ((toString d.digits).toList.length - (-d.power).toNat) ≠ [] := by
        intro hnil
        rcases List.take_eq_nil_iff.mp hnil with hzero | hempty
        · omega
        · exact hne hempty
      refine ⟨_, (toString d.digits).toList.drop
          ((toString d.digits).toList.length - (-d.power).toNat),
        ⟨hwhole, fun c hc => hdigits c (List.mem_of_mem_take hc),
          fun c hc => hdigits c (List.mem_of_mem_drop hc), fun hpos => .inr ?_, 0, ?_, ?_,
          .inl rfl⟩,
        ?_, fun layout _ => ?_⟩
      · rw [List.head?_take, if_neg (by omega)]
        exact head?_natText_ne hpos
      · rw [List.take_append_drop, hvalue, pow_zero, mul_one]
      · rw [List.length_drop]
        omega
      · intro hnil
        have hle := List.drop_eq_nil_iff.mp hnil
        omega
      · rw [if_neg hless]
        simp

/-- With a power of ten a decimal is said by its digits with a point behind the first one. -/
theorem exists_scientificText (d : Digits) :
    ∃ whole part, d.SaidBy whole part (d.power + digitCount d.digits - 1) ∧
      ∀ layout : Layout, (scientificText layout d).toList = whole ++ (pointed part ++ 'e' ::
        ((if 0 < d.power + digitCount d.digits - 1 then layout.plus else "").toList ++
          (toString (d.power + digitCount d.digits - 1)).toList)) := by
  have hne := Sql.natText_ne_nil d.digits
  have hdigits : ∀ c ∈ (toString d.digits).toList, c.isDigit = true :=
    fun _ => Sql.isDigit_of_mem_natText
  have hvalue := digitsValue_natText d.digits
  have hleads : 0 < d.digits → (toString d.digits).toList.head? ≠ some '0' := head?_natText_ne
  unfold scientificText
  rw [← length_natText]
  dsimp only
  generalize (toString d.digits).toList = cs at hne hdigits hvalue hleads
  cases cs with
  | nil => contradiction
  | cons first rest =>
    obtain ⟨hfirst, hrest⟩ := List.forall_mem_cons.mp hdigits
    refine ⟨[first], rest, ⟨List.cons_ne_nil _ _, List.forall_mem_singleton.mpr hfirst, hrest,
      fun hpos => .inr (hleads hpos), 0, ?_, ?_, .inl rfl⟩, fun layout => ?_⟩
    · rw [List.singleton_append, hvalue, pow_zero, mul_one]
    · rw [List.length_cons]
      omega
    · cases rest <;> simp [pointed]

/-- A positive decimal is written as a numeral that denotes it. -/
theorem readNumeral?_text (d : Digits) (negative : Bool) :
    ∃ n, readNumeral? negative (d.text .sql).toList = some n ∧ n.negative = negative ∧
      n.magnitude = d.magnitude := by
  unfold Digits.text
  dsimp only [Layout.sql]
  split
  · obtain ⟨whole, part, hsaid, hpart, htext⟩ := d.exists_positionalText
    have hempty : readPower? [] = some 0 := rfl
    have hpointed : '.' :: part = pointed part ++ [] := by
      cases part with
      | nil => exact absurd rfl hpart
      | cons c cs => rw [List.append_nil, pointed]; simp
    rw [htext _ rfl, hpointed, readNumeral?_pointed negative hsaid.whole_ne hsaid.isDigit_whole
      hsaid.isDigit_part (by rintro c ⟨⟩) hempty]
    exact ⟨_, rfl, rfl, hsaid.magnitude_eq negative⟩
  · obtain ⟨whole, part, hsaid, htext⟩ := d.exists_scientificText
    have hsign (power : Int) : (if 0 < power then Layout.sql.plus else "").toList = [] := by
      split <;> rfl
    have hpower : readPower? ('e' :: (toString (d.power + digitCount d.digits - 1)).toList) =
        some (d.power + digitCount d.digits - 1) := readInt?_intText _
    rw [← Layout.sql, htext, hsign, List.nil_append, readNumeral?_pointed negative hsaid.whole_ne
      hsaid.isDigit_whole hsaid.isDigit_part (by rintro c ⟨⟩; exact ⟨rfl, by decide⟩) hpower]
    exact ⟨_, rfl, rfl, hsaid.magnitude_eq negative⟩

end Digits

end JsonSql.Decimal
