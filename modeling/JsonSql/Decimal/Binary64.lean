set_option autoImplicit false

/-!
# Binary64 numbers

The 64-bit binary floating-point numbers, exactly.  A finite number is its sign and its magnitude
word, the exponent and fraction fields read as one natural number, so that larger words are larger
magnitudes and every word is a number.  Rounding works on exact ratios of natural numbers and
sends a tie to the even word.
-/

namespace JsonSql.Decimal

/-- How many words share an exponent field, two to the power 52. -/
def fractionLimit : Nat := 0x10000000000000

/-- The first magnitude word that is no finite number. -/
def wordLimit : Nat := 2047 * fractionLimit

/-- A finite binary64 number. -/
structure Finite64 where
  negative : Bool
  word : Fin wordLimit
  deriving DecidableEq, Repr

/-- A binary64 number. -/
inductive Binary64 where
  /-- a finite number, the two zeros included -/
  | finite (x : Finite64)
  /-- an infinity -/
  | infinite (negative : Bool)
  /-- not a number -/
  | nan
  deriving DecidableEq, Repr

namespace Finite64

instance : Inhabited Finite64 := ⟨⟨false, ⟨0, by decide⟩⟩⟩

/-- The zero of a sign. -/
def zero (negative : Bool) : Finite64 := ⟨negative, ⟨0, by decide⟩⟩

/-- The exponent field. -/
def exponentField (x : Finite64) : Nat := x.word / fractionLimit

/-- The fraction field. -/
def fractionField (x : Finite64) : Nat := x.word % fractionLimit

/-- The magnitude is `significand * 2 ^ scale`. -/
def significand (x : Finite64) : Nat :=
  if x.exponentField = 0 then x.fractionField else fractionLimit + x.fractionField

/-- The power of two that scales the significand. -/
def scale (x : Finite64) : Int :=
  (max x.exponentField 1 : Nat) - 1075

/-- Either zero. -/
def isZero (x : Finite64) : Bool := x.word.val = 0

/-- The magnitude as a ratio of natural numbers, the second one positive. -/
def ratio (x : Finite64) : Nat × Nat :=
  (x.significand * Nat.pow 2 x.scale.toNat, Nat.pow 2 (-x.scale).toNat)

/-- The number of the other sign. -/
def negate (x : Finite64) : Finite64 := { x with negative := !x.negative }

end Finite64

/-! ## Rounding -/

/-- The natural number nearest to `num / den`; a tie goes to the even one. -/
def roundHalfEven (num den : Nat) : Nat :=
  let quotient := num / den
  let twice := 2 * (num % den)
  if twice < den then quotient
  else if den < twice then quotient + 1
  else quotient + quotient % 2

/-- The magnitude word nearest to `num / den`; `wordLimit` or more stands for a magnitude too large
for a finite number.  The least positive magnitude counts as one unit, and `halvings` is how often
the number of units has to be halved to fit 53 binary digits. -/
def nearestWord (num den : Nat) : Nat :=
  let units := num * Nat.pow 2 1074
  let halvings := (units / den).log2 - 52
  halvings * fractionLimit + roundHalfEven units (den * Nat.pow 2 halvings)

/-- The finite number of a magnitude word, or the infinity if there is none. -/
def ofWord (negative : Bool) (word : Nat) : Binary64 :=
  if h : word < wordLimit then .finite ⟨negative, ⟨word, h⟩⟩ else .infinite negative

/-- The binary64 number nearest to a signed ratio. -/
def roundRatio (negative : Bool) (num den : Nat) : Binary64 :=
  ofWord negative (nearestWord num den)

namespace Binary64

/-- The number nearest to a natural number. -/
def ofNat (n : Nat) : Binary64 := roundRatio false n 1

/-- The number nearest to an integer. -/
def ofInt (n : Int) : Binary64 := roundRatio (n < 0) n.natAbs 1

/-- A finite number. -/
def isFinite : Binary64 → Bool
  | .finite _ => true
  | _ => false

/-- Neither of the two zeros; what is not a number counts as different from zero. -/
def isNonzero : Binary64 → Bool
  | .finite x => !x.isZero
  | _ => true

end Binary64

/-- The product of two finite numbers, rounded once. -/
def Finite64.mul (x y : Finite64) : Binary64 :=
  let (a, b) := x.ratio
  let (c, d) := y.ratio
  roundRatio (x.negative != y.negative) (a * c) (b * d)

/-- The quotient of two finite numbers, rounded once; the divisor is not zero. -/
def Finite64.div (x y : Finite64) : Binary64 :=
  let (a, b) := x.ratio
  let (c, d) := y.ratio
  roundRatio (x.negative != y.negative) (a * d) (b * c)

/-! ## Small laws -/

theorem roundHalfEven_one (n : Nat) : roundHalfEven n 1 = n := by
  simp [roundHalfEven, Nat.mod_one]

/-- A rounded quotient is at most half a unit away. -/
theorem roundHalfEven_near {num den : Nat} (h : 0 < den) :
    2 * num ≤ 2 * (roundHalfEven num den * den) + den ∧
      2 * (roundHalfEven num den * den) ≤ 2 * num + den := by
  have split := Nat.div_add_mod num den
  have small := Nat.mod_lt num h
  have swap : num / den * den = den * (num / den) := Nat.mul_comm _ _
  simp only [roundHalfEven]
  split
  · omega
  · split
    · simp only [Nat.add_mul, Nat.one_mul]; omega
    · have parity : num / den % 2 = 0 ∨ num / den % 2 = 1 := by omega
      rcases parity with even | odd
      · rw [even, Nat.add_zero]; omega
      · rw [odd]; simp only [Nat.add_mul, Nat.one_mul]; omega

example : Binary64.ofNat (2 ^ 53 + 1) = Binary64.ofNat (2 ^ 53) := by decide +kernel
example : roundRatio false 1 10 = ofWord false 0x3FB999999999999A := by decide +kernel
example : roundRatio true (10 ^ 400) 1 = .infinite true := by decide +kernel

end JsonSql.Decimal
