import JsonSql.Decimal.Binary64

set_option autoImplicit false

/-!
# Decimal numerals

Reading integers and decimal fractions from text: an integer is an optional sign and digits; a
number is an optional sign and digits with at most one point and an optional power of ten, or a
word for an infinity or for what is not a number.  A number is rounded once, from its exact value.
-/

namespace JsonSql.Decimal

/-! ## Words of 64 bits -/

/-- The first number past the signed integers of 64 bits, two to the power 63. -/
def int64Limit : Nat := 0x8000000000000000

/-- The first number past the unsigned integers of 64 bits, two to the power 64. -/
def nat64Limit : Nat := 0x10000000000000000

/-- A signed integer of 64 bits. -/
abbrev FitsInt64 (n : Int) : Prop := -(int64Limit : Int) ≤ n ∧ n < int64Limit

/-! ## Integers -/

/-- The value of a decimal digit. -/
def digitValue? (c : Char) : Option Nat :=
  if c.isDigit then some (c.toNat - 48) else none

/-- The digits at the front, and the rest. -/
def takeDigits (cs : List Char) : List Char × List Char :=
  (cs.takeWhile Char.isDigit, cs.dropWhile Char.isDigit)

/-- The number that digits denote. -/
def digitsValue (ds : List Char) : Nat :=
  ds.foldl (fun n d => 10 * n + (d.toNat - 48)) 0

/-- Digits and nothing else, at least one. -/
def readDigits? (cs : List Char) : Option Nat :=
  if cs ≠ [] ∧ cs.all Char.isDigit then some (digitsValue cs) else none

/-- A sign at the front, if there is one, and the rest; the sign is true for a minus. -/
def takeSign : List Char → Bool × List Char
  | '-' :: cs => (true, cs)
  | '+' :: cs => (false, cs)
  | cs => (false, cs)

/-- An optional sign and digits. -/
def readInt? (s : String) : Option Int :=
  let (negative, digits) := takeSign s.toList
  (readDigits? digits).map fun n => if negative then -n else n

/-- An integer of 64 bits. -/
def readInt64? (s : String) : Option Int :=
  (readInt? s).filter FitsInt64

/-- An unsigned integer of 64 bits: digits with at most a plus in front. -/
def readNat64? (s : String) : Option Nat :=
  let digits := match s.toList with
    | '+' :: cs => cs
    | cs => cs
  (readDigits? digits).filter (· < nat64Limit)

/-! ## Numbers -/

/-- A signed decimal number `digits * 10 ^ power`. -/
structure Numeral where
  negative : Bool
  digits : Nat
  power : Int
  deriving DecidableEq, Repr

/-- The count of decimal digits of a natural number. -/
def digitCount (n : Nat) : Nat := (Nat.toDigits 10 n).length

/-- The binary64 number nearest to a numeral.  Magnitudes that are out of reach on either side are
settled by the place of the first digit alone. -/
def Numeral.toBinary64 (n : Numeral) : Binary64 :=
  let place := n.power + digitCount n.digits
  if n.digits = 0 || place < -330 then .finite (.zero n.negative)
  else if 310 < place then .infinite n.negative
  else roundRatio n.negative (n.digits * Nat.pow 10 n.power.toNat) (Nat.pow 10 (-n.power).toNat)

/-- The power of ten after its letter, or zero if there is no letter. -/
def readPower? : List Char → Option Int
  | [] => some 0
  | c :: cs =>
    if c = 'e' || c = 'E' then
      let (negative, digits) := takeSign cs
      (readDigits? digits).map fun n => if negative then -n else n
    else none

/-- Digits, an optional point with digits, and an optional power of ten. -/
def readNumeral? (negative : Bool) (cs : List Char) : Option Numeral :=
  let (whole, rest) := takeDigits cs
  let (fraction, rest) := match rest with
    | '.' :: more => takeDigits more
    | _ => ([], rest)
  if whole = [] ∧ fraction = [] then none
  else (readPower? rest).map fun power =>
    ⟨negative, digitsValue (whole ++ fraction), power - fraction.length⟩

/-- A number, an infinity or the word for what is not a number. -/
def readBinary64? (s : String) : Option Binary64 :=
  let (negative, cs) := takeSign s.toList
  let word := String.ofList (cs.map Char.toLower)
  if word = "inf" || word = "infinity" then some (.infinite negative)
  else if word = "nan" then some .nan
  else (readNumeral? negative cs).map Numeral.toBinary64

example : readInt64? "-9223372036854775808" = some (-9223372036854775808) := by decide +kernel
example : readInt64? "9223372036854775808" = none := by decide +kernel
example : readBinary64? "1e23" = some (ofWord false 0x44B52D02C7E14AF6) := by decide +kernel
example : readBinary64? "." = none := by decide +kernel

end JsonSql.Decimal
