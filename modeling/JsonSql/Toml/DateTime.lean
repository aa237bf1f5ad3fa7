import JsonSql.Calendar.Printer
import JsonSql.Calendar.Reader

set_option autoImplicit false

/-!
# Dates and times in TOML

A date, a time of day, or both with or without an offset from Greenwich.  Every number stands in
full, only seconds may be left out.  The written form has seconds always, a fraction of a second
without zeros at its end, and no minus in front of an offset of zero.
-/

namespace JsonSql.Toml

open JsonSql.Calendar

/-! ## Writing -/

/-- A fraction of a second in its shortest form, with its point if there is one. -/
def fractionText (nanosecond : Nat) : String :=
  if nanosecond = 0 then ""
  else "." ++ .ofList (((padded 9 nanosecond).toList.reverse.dropWhile (· = '0')).reverse)

/-- An offset of minutes. -/
def offsetText (minutes : Int) : String :=
  (if minutes < 0 then "-" else "+") ++
    padded 2 (minutes.natAbs / 60) ++ ":" ++ padded 2 (minutes.natAbs % 60)

/-! ## Reading -/

/-- A date at the front in its written form, and the rest. -/
def readDate? (cs : List Char) : Option (String × List Char) := do
  let (year, cs) ← readExactly? 4 cs
  let cs ← readMark? '-' cs
  let (month, cs) ← readExactly? 2 cs
  let cs ← readMark? '-' cs
  let (day, cs) ← readExactly? 2 cs
  let date : Date := ⟨year, month, day⟩
  if date.Valid then some (date.text, cs) else none

/-- Seconds and nanoseconds at the front, if there are any, and the rest. -/
def readSeconds? : List Char → Option (Nat × Nat × List Char)
  | ':' :: cs => do
    let (second, cs) ← readExactly? 2 cs
    let (nanosecond, cs) ← readFraction? cs
    return (second, nanosecond, cs)
  | cs => some (0, 0, cs)

/-- A time of day at the front in its written form, and the rest. -/
def readClock? (cs : List Char) : Option (String × List Char) := do
  let (hour, cs) ← readExactly? 2 cs
  let cs ← readMark? ':' cs
  let (minute, cs) ← readExactly? 2 cs
  let (second, nanosecond, cs) ← readSeconds? cs
  let time : Time := ⟨hour, minute, second, nanosecond⟩
  if time.Valid then some (time.text ++ fractionText nanosecond, cs) else none

/-- An offset in its written form, if it is all that stands there. -/
def offset? (cs : List Char) : Option String :=
  match cs with
  | [] => some ""
  | ['Z'] | ['z'] => some "Z"
  | sign :: _ =>
    if sign = '+' ∨ sign = '-' then
      match readOffset? cs with
      | some (minutes, []) => some (offsetText minutes)
      | _ => none
    else none

/-- A date, a time of day or both with or without an offset, in its written form. -/
def dateTime? (cs : List Char) : Option String :=
  match readDate? cs with
  | some (date, []) => some date
  | some (date, mark :: rest) => do
    if mark = 'T' ∨ mark = 't' ∨ mark = ' ' then
      let (time, rest) ← readClock? rest
      return date ++ "T" ++ time ++ (← offset? rest)
    else none
  | none =>
    match readClock? cs with
    | some (time, []) => some time
    | _ => none

example : dateTime? "07:32".toList = some "07:32:00" := by decide +kernel
example : dateTime? "1979-05-27 07:32:60.50-00:00".toList = some "1979-05-27T07:32:60.5+00:00" := by
  decide +kernel

end JsonSql.Toml
