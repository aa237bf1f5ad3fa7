import JsonSql.Calendar.Moment
import JsonSql.Decimal.Numeral
import JsonSql.Text.Blank

set_option autoImplicit false

/-!
# Reading dates and times

A moment is read from Internet time (`2024-03-09T14:30:00Z`, with an offset that is taken off) or
from one of a few plain forms, in which numbers need no leading zeros and blanks may stand in
front of them.  Blanks around the whole text do not count.
-/

namespace JsonSql.Calendar

open JsonSql.Decimal JsonSql.Text

/-! ## Numbers -/

/-- At least one and at most `most` digits at the front, and the rest. -/
def readUpTo? (most : Nat) (cs : List Char) : Option (Nat × List Char) :=
  let digits := (cs.take most).takeWhile Char.isDigit
  if digits = [] then none else some (digitsValue digits, cs.drop digits.length)

/-- Exactly `count` digits at the front, and the rest. -/
def readExactly? (count : Nat) (cs : List Char) : Option (Nat × List Char) :=
  let digits := (cs.take count).takeWhile Char.isDigit
  if digits.length = count then some (digitsValue digits, cs.drop count) else none

/-- A year: up to four digits, or a sign and any number of digits. -/
def readYear? : List Char → Option (Int × List Char)
  | '-' :: cs => (readUpTo? cs.length cs).map fun (n, rest) => (-(n : Int), rest)
  | '+' :: cs => (readUpTo? cs.length cs).map fun (n, rest) => ((n : Int), rest)
  | cs => (readUpTo? 4 cs).map fun (n, rest) => ((n : Int), rest)

/-- The digits of a fraction of a second as nanoseconds; digits after the ninth do not count. -/
def readNanoseconds? (cs : List Char) : Option (Nat × List Char) :=
  let digits := cs.takeWhile Char.isDigit
  if digits = [] then none
  else
    let kept := digits.take 9
    some (digitsValue kept * Nat.pow 10 (9 - kept.length), cs.dropWhile Char.isDigit)

/-- A character at the front, and the rest. -/
def readMark? (mark : Char) : List Char → Option (List Char)
  | [] => none
  | c :: cs => if c = mark then some cs else none

/-- A point and a fraction of a second, if there is a point. -/
def readFraction? : List Char → Option (Nat × List Char)
  | '.' :: cs => readNanoseconds? cs
  | cs => some (0, cs)

/-! ## Patterns -/

/-- A part of a pattern. -/
inductive Part where
  | year
  | month
  | day
  | hour
  | minute
  | second
  /-- a point and digits, or nothing -/
  | fraction
  /-- this character -/
  | mark (c : Char)
  /-- any number of blanks, also none -/
  | gap
  deriving DecidableEq, Repr

/-- What a pattern has read so far. -/
structure Reading where
  year : Int := 0
  month : Nat := 1
  day : Nat := 1
  hour : Nat := 0
  minute : Nat := 0
  second : Nat := 0
  nanosecond : Nat := 0
  deriving DecidableEq, Repr, Inhabited

namespace Reading

/-- The date that was read, if the calendar has it. -/
def date? (r : Reading) : Option Date :=
  let d : Date := ⟨r.year, r.month, r.day⟩
  if d.Valid then some d else none

/-- The time of day that was read, if the day has it. -/
def time? (r : Reading) : Option Time :=
  let t : Time := ⟨r.hour, r.minute, r.second, r.nanosecond⟩
  if t.Valid then some t else none

/-- The moment that was read. -/
def moment? (r : Reading) : Option Moment := do
  return ⟨← r.date?, ← r.time?⟩

end Reading

/-- A number of one or two digits after blanks. -/
def readPair? (cs : List Char) : Option (Nat × List Char) :=
  readUpTo? 2 (cs.dropWhile isBlank)

/-- One part at the front, put into the reading, and the rest. -/
def Part.read? (r : Reading) (cs : List Char) : Part → Option (Reading × List Char)
  | year => (readYear? (cs.dropWhile isBlank)).map fun (n, rest) => ({ r with year := n }, rest)
  | month => (readPair? cs).map fun (n, rest) => ({ r with month := n }, rest)
  | day => (readPair? cs).map fun (n, rest) => ({ r with day := n }, rest)
  | hour => (readPair? cs).map fun (n, rest) => ({ r with hour := n }, rest)
  | minute => (readPair? cs).map fun (n, rest) => ({ r with minute := n }, rest)
  | second => (readPair? cs).map fun (n, rest) => ({ r with second := n }, rest)
  | fraction => (readFraction? cs).map fun (n, rest) => ({ r with nanosecond := n }, rest)
  | mark c => (readMark? c cs).map fun rest => (r, rest)
  | gap => some (r, cs.dropWhile isBlank)

/-- The reading of a whole text by a pattern. -/
def readPattern? : List Part → Reading → List Char → Option Reading
  | [], r, cs => if cs = [] then some r else none
  | part :: parts, r, cs =>
    match part.read? r cs with
    | none => none
    | some (r, rest) => readPattern? parts r rest

/-- Year, month and day. -/
def dateParts : List Part := [.year, .mark '-', .month, .mark '-', .day]

/-- Hour and minute. -/
def minuteParts : List Part := [.hour, .mark ':', .minute]

/-- Hour, minute, second and its fraction. -/
def secondParts : List Part := minuteParts ++ [.mark ':', .second, .fraction]

/-! ## Internet time -/

/-- An offset in minutes: the letter `Z`, or a sign, hours and minutes. -/
def readOffset? : List Char → Option (Int × List Char)
  | 'Z' :: cs | 'z' :: cs => some (0, cs)
  | sign :: cs =>
    if sign = '+' || sign = '-' || sign = '−' then do
      let (hours, cs) ← readExactly? 2 cs
      let cs ← readMark? ':' cs
      let (minutes, cs) ← readExactly? 2 cs
      if minutes < 60 && hours < 24 then
        let total : Int := (hours * 60 + minutes : Nat)
        some (if sign = '+' then total else -total, cs)
      else none
    else none
  | [] => none

/-- The date and the time of day of Internet time, with every number in full. -/
def readInternet? (cs : List Char) : Option Moment := do
  let (year, cs) ← readExactly? 4 cs
  let cs ← readMark? '-' cs
  let (month, cs) ← readExactly? 2 cs
  let cs ← readMark? '-' cs
  let (day, cs) ← readExactly? 2 cs
  let cs ← match cs with
    | 'T' :: rest | 't' :: rest | ' ' :: rest => some rest
    | _ => none
  let (hour, cs) ← readExactly? 2 cs
  let cs ← readMark? ':' cs
  let (minute, cs) ← readExactly? 2 cs
  let cs ← readMark? ':' cs
  let (second, cs) ← readExactly? 2 cs
  let (nanosecond, cs) ← readFraction? cs
  let (offset, cs) ← readOffset? cs
  if cs = [] then
    let moment ← Reading.moment? { year, month, day, hour, minute, second, nanosecond }
    some (moment.minutesEarlier offset)
  else none

/-! ## Moments and times of day -/

/-- The moment that a text denotes, by the first form that fits it; a date alone is its midnight. -/
def readMoment? (text : String) : Option Moment :=
  let cs := trimChars text.toList
  readInternet? cs <|>
    (readPattern? (dateParts ++ .mark 'T' :: secondParts) {} cs).bind Reading.moment? <|>
    (readPattern? (dateParts ++ .gap :: secondParts) {} cs).bind Reading.moment? <|>
    (readPattern? (dateParts ++ .mark 'T' :: minuteParts) {} cs).bind Reading.moment? <|>
    (readPattern? dateParts {} cs).bind Reading.moment?

/-- The time of day that a text denotes. -/
def readTime? (text : String) : Option Time :=
  let cs := trimChars text.toList
  (readPattern? secondParts {} cs).bind Reading.time? <|>
    (readPattern? minuteParts {} cs).bind Reading.time?

example : readMoment? "2024-03-09T16:30:00+02:00" = some ⟨⟨2024, 3, 9⟩, ⟨14, 30, 0, 0⟩⟩ := by
  decide +kernel
example : readMoment? "2023-02-29" = none := by decide +kernel
example : readTime? "4:5:6.75" = some ⟨4, 5, 6, 750000000⟩ := by decide +kernel

end JsonSql.Calendar
