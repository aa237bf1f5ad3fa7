import JsonSql.Decimal.Numeral
import JsonSql.Text.Hex
import JsonSql.Text.Split
import JsonSql.Toml.Basic
import JsonSql.Toml.DateTime

set_option autoImplicit false

/-!
# Scalars in TOML

Strings with their four kinds of quotes, numbers, truth values, dates and times.  The readers of
strings take the characters after the opening quote and return the rest after the closing one.  A
line ends in a line feed, before which a carriage return may stand; strings keep both.
-/

namespace JsonSql.Toml

open JsonSql.Decimal

/-! ## Characters -/

/-- A blank within a line. -/
def isSpace (c : Char) : Bool := c = ' ' || c = '\t'

/-- A character of the end of a line. -/
def isLineEnd (c : Char) : Bool := c = '\n' || c = '\r'

/-- A character that must not stand in a text as it is; those of the end of a line are such. -/
def isControl (c : Char) : Bool := (c.toNat < 0x20 && c ≠ '\t') || c.toNat = 0x7F

/-- The character with a number, if it has one. -/
def charOfNumber? (n : Nat) : Option Char :=
  if n.isValidChar then some (.ofNat n) else none

/-- The character that hexadecimal digits name. -/
def namedChar? (digits : List Char) : Option Char := (hexNumber? digits).bind charOfNumber?

/-- The character that a backslash and a letter stand for. -/
def escaped? (c : Char) : Option Char :=
  match c with
  | 'b' => some '\x08'
  | 't' => some '\t'
  | 'n' => some '\n'
  | 'f' => some '\x0C'
  | 'r' => some '\r'
  | 'e' => some '\x1B'
  | '"' => some '"'
  | '\\' => some '\\'
  | _ => none

/-! ## Strings -/

/-- One more character in front of those read. -/
def withChar (c : Char) : Option (List Char × List Char) → Option (List Char × List Char) :=
  Option.map fun (cs, rest) => (c :: cs, rest)

/-- A string in double quotes. -/
def readBasic? : List Char → Option (List Char × List Char)
  | [] => none
  | '"' :: rest => some ([], rest)
  | '\\' :: 'x' :: a :: b :: rest =>
    (namedChar? [a, b]).bind fun e => withChar e (readBasic? rest)
  | '\\' :: 'u' :: a :: b :: c :: d :: rest =>
    (namedChar? [a, b, c, d]).bind fun e => withChar e (readBasic? rest)
  | '\\' :: 'U' :: a :: b :: c :: d :: e :: f :: g :: h :: rest =>
    (namedChar? [a, b, c, d, e, f, g, h]).bind fun e => withChar e (readBasic? rest)
  | '\\' :: c :: rest => (escaped? c).bind fun e => withChar e (readBasic? rest)
  | c :: rest => if isControl c || c = '\\' then none else withChar c (readBasic? rest)

/-- A string in single quotes. -/
def readLiteral? : List Char → Option (List Char × List Char)
  | [] => none
  | '\x27' :: rest => some ([], rest)
  | c :: rest => if isControl c then none else withChar c (readLiteral? rest)

/-- Blanks and the end of the line. -/
def endsLine (cs : List Char) : Bool := (cs.dropWhile isSpace).head?.any isLineEnd

/-- A string of several lines in three double quotes, before which one or two may stand.  While
`skipping`, after a backslash at the end of a line, blanks and ends of lines are left out. -/
def readBasicLines? (skipping : Bool) : List Char → Option (List Char × List Char)
  | [] => none
  | '"' :: '"' :: '"' :: '"' :: '"' :: rest => some (['"', '"'], rest)
  | '"' :: '"' :: '"' :: '"' :: rest => some (['"'], rest)
  | '"' :: '"' :: '"' :: rest => some ([], rest)
  | '\\' :: 'x' :: a :: b :: rest =>
    (namedChar? [a, b]).bind fun e => withChar e (readBasicLines? false rest)
  | '\\' :: 'u' :: a :: b :: c :: d :: rest =>
    (namedChar? [a, b, c, d]).bind fun e => withChar e (readBasicLines? false rest)
  | '\\' :: 'U' :: a :: b :: c :: d :: e :: f :: g :: h :: rest =>
    (namedChar? [a, b, c, d, e, f, g, h]).bind fun e => withChar e (readBasicLines? false rest)
  | '\\' :: c :: rest =>
    match escaped? c with
    | some e => withChar e (readBasicLines? false rest)
    | none => if endsLine (c :: rest) then readBasicLines? true rest else none
  | c :: rest =>
    if skipping && (isSpace c || isLineEnd c) then readBasicLines? true rest
    else if (isControl c && !isLineEnd c) || c = '\\' then none
    else withChar c (readBasicLines? false rest)

/-- A string of several lines in three single quotes, before which one or two may stand. -/
def readLiteralLines? : List Char → Option (List Char × List Char)
  | [] => none
  | '\x27' :: '\x27' :: '\x27' :: '\x27' :: '\x27' :: rest => some (['\x27', '\x27'], rest)
  | '\x27' :: '\x27' :: '\x27' :: '\x27' :: rest => some (['\x27'], rest)
  | '\x27' :: '\x27' :: '\x27' :: rest => some ([], rest)
  | c :: rest =>
    if isControl c && !isLineEnd c then none else withChar c (readLiteralLines? rest)

/-- The end of a line right after opening quotes does not count. -/
def dropLineEnd : List Char → List Char
  | '\n' :: rest => rest
  | '\r' :: '\n' :: rest => rest
  | rest => rest

/-- A string with its quotes, if one stands at the front. -/
def readQuoted? (cs : List Char) : Option (Option (List Char × List Char)) :=
  match cs with
  | '"' :: '"' :: '"' :: rest => some (readBasicLines? false (dropLineEnd rest))
  | '\x27' :: '\x27' :: '\x27' :: rest => some (readLiteralLines? (dropLineEnd rest))
  | '"' :: rest => some (readBasic? rest)
  | '\x27' :: rest => some (readLiteral? rest)
  | _ => none

/-! ## Numbers -/

/-- Digits without the underscores between them. -/
def plainDigits? (isDigit : Char → Bool) (cs : List Char) : Option (List Char) :=
  let groups := Text.splitChars '_' cs
  if groups.all fun group => group ≠ [] ∧ group.all isDigit then some groups.flatten else none

/-- A sign at the front. -/
def hasSign (cs : List Char) : Bool := cs.head?.any fun c => c = '+' || c = '-'

/-- The digits of a whole number, which has no leading zero.  After a sign an underscore may stand
in front of the digits, which then may begin with zeros. -/
def wholeDigits? (signed : Bool) (cs : List Char) : Option (List Char) :=
  match signed, cs with
  | true, '_' :: ds => plainDigits? Char.isDigit ds
  | _, ds =>
    (plainDigits? Char.isDigit ds).filter fun ds => ds.length = 1 || ds.head? ≠ some '0'

/-- A digit of a base up to sixteen. -/
def isDigitOf (base : Nat) (c : Char) : Bool := (hexValue? c).any (· < base)

/-- The number that digits of a base denote. -/
def numberInBase? (base : Nat) (cs : List Char) : Option Nat :=
  (plainDigits? (isDigitOf base) cs).map fun ds =>
    ds.foldl (fun n d => base * n + (hexValue? d).getD 0) 0

/-- An integer, decimal with an optional sign or of another base after its mark. -/
def integer? (cs : List Char) : Option Int :=
  match cs with
  | '0' :: 'x' :: ds => (numberInBase? 16 ds).map Int.ofNat
  | '0' :: 'o' :: ds => (numberInBase? 8 ds).map Int.ofNat
  | '0' :: 'b' :: ds => (numberInBase? 2 ds).map Int.ofNat
  | _ =>
    let (negative, ds) := takeSign cs
    (wholeDigits? (hasSign cs) ds).map fun ds =>
      if negative then -(digitsValue ds : Int) else digitsValue ds

/-- The characters before and from the first one with a property. -/
def cutBefore (p : Char → Bool) (cs : List Char) : List Char × List Char :=
  (cs.takeWhile fun c => !p c, cs.dropWhile fun c => !p c)

/-- The written form of a fraction or a power of ten, without underscores. -/
def floatText? (signed : Bool) (cs : List Char) : Option (List Char) := do
  let (mantissa, power) := cutBefore (fun c => c = 'e' || c = 'E') cs
  let (whole, fraction) := cutBefore (· = '.') mantissa
  let whole ← wholeDigits? signed whole
  let fraction ← match fraction with
    | _ :: ds => ('.' :: ·) <$> plainDigits? Char.isDigit ds
    | [] => some []
  let power ← match power with
    | _ :: '+' :: ds => ('e' :: ·) <$> plainDigits? Char.isDigit ds
    | _ :: '-' :: ds => ('e' :: '-' :: ·) <$> plainDigits? Char.isDigit ds
    | _ :: ds => ('e' :: ·) <$> plainDigits? Char.isDigit ds
    | [] => some []
  return whole ++ fraction ++ power

/-- The meaning of a float or of one of the words for what is not finite; digits that denote no
finite number are out of range. -/
def float? (cs : List Char) : Option Meaning := do
  let (negative, digits) := takeSign cs
  if digits = "inf".toList then return some (.float (.infinite negative))
  if digits = "nan".toList then return some (.float .nan)
  let text ← floatText? (hasSign cs) digits
  let x ← readBinary64? (.ofList (if negative then '-' :: text else text))
  return if x.isFinite then some (.float x) else none

/-! ## Bare scalars -/

/-- A character of a scalar without quotes. -/
def isScalarChar (c : Char) : Bool :=
  c.isAlphanum || c = '_' || c = '+' || c = '-' || c = '.' || c = ':'

/-- The characters of a scalar without quotes, and the rest.  A date and a time of day may have a
blank between them. -/
def takeScalar (cs : List Char) : List Char × List Char :=
  let (word, rest) := cutBefore (fun c => !isScalarChar c) cs
  match rest with
  | ' ' :: d :: more =>
    if d.isDigit ∧ (readDate? word).any (fun (_, after) => after = []) then
      let (time, rest) := cutBefore (fun c => !isScalarChar c) (d :: more)
      (word ++ ' ' :: time, rest)
    else (word, rest)
  | _ => (word, rest)

/-- The meaning of a scalar without quotes.  Integers have 64 bits. -/
def scalar? (cs : List Char) : Option Meaning :=
  if cs = "true".toList then some (some (.boolean true))
  else if cs = "false".toList then some (some (.boolean false))
  else match integer? cs with
    | some n => some (if FitsInt64 n then some (.integer n) else none)
    | none => float? cs <|> (dateTime? cs).map fun text => some (.dateTime text)

end JsonSql.Toml
