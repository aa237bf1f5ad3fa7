import JsonSql.Json.Basic

set_option autoImplicit false

/-!
# Numbers in JSON text

An integer that fits 64 bits stays an integer.  Any other numeral becomes a binary64 number in two
rounded steps: as many leading digits as fit an unsigned 64-bit integer are rounded to a binary64
number, and that is multiplied or divided by a power of ten.  A numeral too large for a finite
number is no number.
-/

namespace JsonSql

open JsonSql.Decimal

/-- Digits appended to a number as long as it fits 64 bits, and the digits left over. -/
def appendDigits : Nat → List Char → Nat × List Char
  | n, [] => (n, [])
  | n, d :: ds =>
    let more := 10 * n + (d.toNat - 48)
    if more < nat64Limit then appendDigits more ds else (n, d :: ds)

/-- The binary64 number nearest to a power of ten. -/
def powerOfTen (n : Nat) : Finite64 :=
  match roundRatio false (Nat.pow 10 n) 1 with
  | .finite x => x
  | _ => default

/-- The greatest power of ten that is a finite number. -/
def greatestPower : Nat := 308

/-- A finite number, and nothing else. -/
def finitePart? : Binary64 → Option Finite64
  | .finite x => some x
  | _ => none

/-- A number divided over and over by another one, until it is zero. -/
def divideOver (divisor : Finite64) : Nat → Finite64 → Option Finite64
  | 0, x => some x
  | times + 1, x =>
    if x.isZero then some x
    else (finitePart? (x.div divisor)).bind (divideOver divisor times)

/-- A number divided by a power of ten: by the greatest finite one as often as the power holds
more than one of it, then by what is left. -/
def scaleDown (x : Finite64) (power : Nat) : Option Finite64 :=
  let times := (power - 1) / greatestPower
  (divideOver (powerOfTen greatestPower) times x).bind fun y =>
    finitePart? (y.div (powerOfTen (power - greatestPower * times)))

/-- A number times a power of ten, if that is a finite number. -/
def scaleByTen (x : Finite64) (power : Int) : Option Finite64 :=
  if power < 0 then scaleDown x power.natAbs
  else if power ≤ greatestPower then finitePart? (x.mul (powerOfTen power.toNat))
  else if x.isZero then some x
  else none

/-- The number `significand * 10 ^ power` with a sign, rounded in two steps. -/
def floatOf? (negative : Bool) (significand : Nat) (power : Int) : Option Finite64 :=
  (finitePart? (.ofNat significand)).bind fun x =>
    (scaleByTen x power).map fun y => if negative then y.negate else y

/-- A power of ten whose digits do not fit 32 bits leaves nothing but zero. -/
def powerLimit : Nat := 0x80000000

/-- The value of a numeral by its parts: the digits before the point, those after it (if there is
a point) and the signed power of ten (if there is one). -/
def numberOf? (negative : Bool) (whole : List Char) (fraction : Option (List Char))
    (power : Option (Bool × List Char)) : Option Number :=
  let (significand, dropped) := appendDigits 0 whole
  match fraction, power with
  | none, none =>
    if dropped ≠ [] then (floatOf? negative significand dropped.length).map .float
    else if !negative then some (.int significand)
    else if significand = 0 || int64Limit < significand then
      (floatOf? true significand 0).map .float
    else some (.int (-(significand : Int)))
  | _, _ =>
    let digits := fraction.getD []
    let (significand, ignored) := appendDigits significand digits
    let start : Int := (dropped.length : Int) - ((digits.length : Int) - ignored.length)
    match power with
    | none => (floatOf? negative significand start).map .float
    | some (powerNegative, powerDigits) =>
      let n := digitsValue powerDigits
      if powerLimit ≤ n then
        if significand ≠ 0 && !powerNegative then none else some (.float (.zero negative))
      else
        let scale : Int := if powerNegative then start - n else start + n
        (floatOf? negative significand scale).map .float

/-- The digits of a whole number: a zero alone, or digits that start with another one. -/
def wholeDigits? (cs : List Char) : Option (List Char × List Char) :=
  match takeDigits cs with
  | ([], _) => none
  | (['0'], rest) => some (['0'], rest)
  | ('0' :: _, _) => none
  | (digits, rest) => some (digits, rest)

/-- A point and at least one digit, if there is a point. -/
def fractionDigits? : List Char → Option (Option (List Char) × List Char)
  | '.' :: cs => match takeDigits cs with
    | ([], _) => none
    | (digits, rest) => some (some digits, rest)
  | cs => some (none, cs)

/-- A letter, an optional sign and at least one digit, if there is the letter. -/
def powerDigits? : List Char → Option (Option (Bool × List Char) × List Char)
  | c :: cs =>
    if c = 'e' || c = 'E' then
      let (negative, cs) := takeSign cs
      match takeDigits cs with
      | ([], _) => none
      | (digits, rest) => some (some (negative, digits), rest)
    else some (none, c :: cs)
  | [] => some (none, [])

/-- A number at the front, and the rest. -/
def readNumber? (cs : List Char) : Option (Number × List Char) := do
  let (negative, cs) := match cs with
    | '-' :: rest => (true, rest)
    | _ => (false, cs)
  let (whole, cs) ← wholeDigits? cs
  let (fraction, cs) ← fractionDigits? cs
  let (power, cs) ← powerDigits? cs
  let number ← numberOf? negative whole fraction power
  return (number, cs)

end JsonSql
