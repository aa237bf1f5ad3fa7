import JsonSql.Decimal.Shortest

set_option autoImplicit false

/-!
# Layouts of decimals

How a number is written: which of two equally near decimals is taken, which magnitudes stand in
positional notation, whether a whole number carries a fraction, and how a power of ten is marked.
-/

namespace JsonSql.Decimal

/-- The decisions of one written form of numbers. -/
structure Layout where
  /-- the decimal taken of two that are equally near -/
  tie : Tie
  /-- places of the first digit that are written in positional notation; `none` for all of them -/
  positional : Option (Int × Int)
  /-- what follows the digits of a whole number -/
  whole : String
  /-- what stands in front of a positive power of ten -/
  plus : String
  deriving DecidableEq, Repr

/-- Numbers inside SQL text: positional from `1e-5` to below `1e16`, a whole number with `.0`. -/
def Layout.sql : Layout := ⟨.toEven, some (-4, 16), ".0", ""⟩

/-- Numbers inside JSON text: as in SQL, but a positive power of ten carries a plus. -/
def Layout.json : Layout := ⟨.toEven, some (-4, 16), ".0", "+"⟩

/-- Numbers inside patterns: always positional, a whole number without a fraction, and of two
equally near decimals the greater one. -/
def Layout.plain : Layout := ⟨.up, none, "", ""⟩

/-- As many zeros. -/
def zeros (n : Nat) : String := .ofList (List.replicate n '0')

/-- Digits in positional notation. -/
def positionalText (layout : Layout) (d : Digits) : String :=
  let text := toString d.digits
  if 0 ≤ d.power then text ++ zeros d.power.toNat ++ layout.whole
  else
    let places := (-d.power).toNat
    if text.length ≤ places then "0." ++ zeros (places - text.length) ++ text
    else
      let cs := text.toList
      .ofList (cs.take (cs.length - places)) ++ "." ++ .ofList (cs.drop (cs.length - places))

/-- Digits with a power of ten. -/
def scientificText (layout : Layout) (d : Digits) : String :=
  let cs := (toString d.digits).toList
  let power := d.power + cs.length - 1
  let mantissa := match cs with
    | first :: second :: more => String.ofList (first :: '.' :: second :: more)
    | _ => String.ofList cs
  mantissa ++ "e" ++ (if 0 < power then layout.plus else "") ++ toString power

/-- A positive decimal in a layout. -/
def Digits.text (layout : Layout) (d : Digits) : String :=
  let place := d.power + digitCount d.digits
  match layout.positional with
  | none => positionalText layout d
  | some (least, most) =>
    if least ≤ place && place ≤ most then positionalText layout d else scientificText layout d

/-- A finite number in a layout: the shortest digits that read back. -/
def Finite64.text (layout : Layout) (x : Finite64) : String :=
  (if x.negative then "-" else "") ++
    (if x.isZero then "0" ++ layout.whole else (shortest layout.tie x).text layout)

/-- A number in positional notation, with words for what is not finite. -/
def Binary64.plainText : Binary64 → String
  | .finite x => x.text .plain
  | .infinite negative => if negative then "-inf" else "inf"
  | .nan => "NaN"

/-- The text of the number nearest to a numeral. -/
def numeralText? (layout : Layout) (s : String) : Option String :=
  match readBinary64? s with
  | some (.finite x) => some (x.text layout)
  | _ => none

example : numeralText? .sql "5e-324" = some "5e-324" := by decide +kernel
example : numeralText? .sql "0.1" = some "0.1" := by decide +kernel
example : numeralText? .sql "1e16" = some "1e16" := by decide +kernel
example : numeralText? .json "1e16" = some "1e+16" := by decide +kernel
example : numeralText? .plain "1e16" = some "10000000000000000" := by decide +kernel
example : numeralText? .sql "1551010232643076.25" = some "1551010232643076.2" := by decide +kernel
example : numeralText? .plain "1551010232643076.25" = some "1551010232643076.3" := by decide +kernel
example : numeralText? .sql "1e-5" = some "0.00001" := by decide +kernel
example : numeralText? .sql "-0" = some "-0.0" := by decide +kernel
example : numeralText? .sql "9007199254740993" = some "9007199254740992.0" := by decide +kernel

end JsonSql.Decimal
