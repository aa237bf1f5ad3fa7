import JsonSql.Decimal.Numeral

set_option autoImplicit false

/-!
# Shortest decimals

The decimal with the fewest digits that reads back as a given binary64 number and, of those, the
nearest to it.  For each count of digits the two neighbours of the number on that decimal grid are
tested against the interval of reals that round to it; the first grid with a hit decides.  Two
neighbours can be equally near; which of them is taken is up to the written form.
-/

namespace JsonSql.Decimal

/-- A positive decimal `digits * 10 ^ power`. -/
structure Digits where
  digits : Nat
  power : Int
  deriving DecidableEq, Repr

/-- Which one of two equally near neighbours on a decimal grid is taken. -/
inductive Tie where
  /-- the one whose last digit is even -/
  | toEven
  /-- the one above -/
  | up
  deriving DecidableEq, Repr, Inhabited

/-- The place of the first digit of `num / den`: the power of ten just above the ratio.  The ratio
is at least `10 ^ (-400)`. -/
def leadingPlace (num den : Nat) : Int :=
  digitCount (num * Nat.pow 10 400 / den) - 400

/-- The reals that round to a finite number, in quarters of its unit `2 ^ (scale - 2)`: the lower
end, the number itself and the upper end.  Below a power of two the numbers lie twice as close. -/
def quarters (x : Finite64) : Nat × Nat × Nat :=
  let four := 4 * x.significand
  let below := if x.fractionField = 0 && 1 < x.exponentField then 1 else 2
  (four - below, four, four + 2)

/-- The decimal `n * 10 ^ power` as a multiple of the quarter unit, times `den`: a pair of numbers
`(a, b)` such that it is at most `k` quarters exactly if `a ≤ k * b`. -/
def inQuarters (x : Finite64) (n : Nat) (power : Int) : Nat × Nat :=
  let shift := x.scale - 2
  (n * Nat.pow 10 power.toNat * Nat.pow 2 (-shift).toNat,
    Nat.pow 10 (-power).toNat * Nat.pow 2 shift.toNat)

/-- Whether the decimal `n * 10 ^ power` rounds to the number: ends belong to the even number. -/
def roundsTo (x : Finite64) (n : Nat) (power : Int) : Bool :=
  let (low, _, high) := quarters x
  let (a, b) := inQuarters x n power
  if x.significand % 2 = 0 then low * b ≤ a && a ≤ high * b
  else low * b < a && a < high * b

/-- The nearer of the two neighbours `n` and `n + 1` on the grid of `10 ^ power`. -/
def nearer (tie : Tie) (x : Finite64) (n : Nat) (power : Int) : Nat :=
  let (_, value, _) := quarters x
  let (a, b) := inQuarters x n power
  let (c, _) := inQuarters x (n + 1) power
  let fromBelow := value * b - a
  let fromAbove := c - value * b
  if fromBelow < fromAbove then n
  else if fromAbove < fromBelow then n + 1
  else match tie with
    | .toEven => n + n % 2
    | .up => n + 1

/-- The decimal on the grid of `count` digits that rounds to the number, if there is one. -/
def onGrid? (tie : Tie) (x : Finite64) (count : Nat) : Option Digits :=
  let (num, den) := x.ratio
  let power := leadingPlace num den - count
  let floor := num * Nat.pow 10 (-power).toNat / (den * Nat.pow 10 power.toNat)
  let pick := match roundsTo x floor power, roundsTo x (floor + 1) power with
    | true, true => some (nearer tie x floor power)
    | true, false => some floor
    | false, true => some (floor + 1)
    | false, false => none
  pick.map fun n => if n = Nat.pow 10 count then ⟨1, power + count⟩ else ⟨n, power⟩

/-- The shortest decimal of a number that is not zero; seventeen digits always suffice. -/
def shortest (tie : Tie) (x : Finite64) : Digits :=
  ((List.range 17).findSome? fun n => onGrid? tie x (n + 1)).getD ⟨0, 0⟩

end JsonSql.Decimal
