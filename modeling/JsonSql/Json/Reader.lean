import JsonSql.Json.Shape
import JsonSql.Json.Skip

set_option autoImplicit false

/-!
# Reading JSON text

A strict reader: no comments, no trailing commas, nothing after the value, and containers nested at
most `nestingLimit` deep.  Each reader takes the characters at hand and returns what it read with
the rest.  A shape says which members of objects are passed over; they are missing from the value.
-/

namespace JsonSql

/-- The greatest number of containers one inside another. -/
def nestingLimit : Nat := 127

/-! ## Values

The fuel bounds the number of values, items and members read one inside or after another, and of the
values passed over at one place.  Each takes at least one character, so the length of the text is
enough. -/

mutual
/-- A value at the front.  The fourth argument counts the containers that may still be opened. -/
def readValue? : Nat → Shape → List Char → Nat → Option (Json × List Char)
  | 0, _, _, _ => none
  | fuel + 1, shape, cs, room =>
    match skipBlanks cs with
    | 'n' :: 'u' :: 'l' :: 'l' :: rest => some (.null, rest)
    | 't' :: 'r' :: 'u' :: 'e' :: rest => some (.bool true, rest)
    | 'f' :: 'a' :: 'l' :: 's' :: 'e' :: rest => some (.bool false, rest)
    | '"' :: rest => (readString? rest).map fun (cs, rest) => (.string (.ofList cs), rest)
    | '[' :: rest =>
      match room with
      | 0 => none
      | room + 1 =>
        match skipBlanks rest with
        | ']' :: rest => some (.array [], rest)
        | rest => (readItems? fuel shape 0 rest room).map fun (items, rest) => (.array items, rest)
    | '\x7b' :: rest =>
      match room with
      | 0 => none
      | room + 1 =>
        match skipBlanks rest with
        | '\x7d' :: rest => some (.object [], rest)
        | rest =>
          (readMembers? fuel shape rest room).map fun (members, rest) => (.object members, rest)
    | rest => (readNumber? rest).map fun (n, rest) => (.number n, rest)

/-- The items of an array from an index up to its closing bracket, at least one. -/
def readItems? : Nat → Shape → Nat → List Char → Nat → Option (List Json × List Char)
  | 0, _, _, _, _ => none
  | fuel + 1, shape, index, cs, room =>
    match readValue? fuel (shape.item index) cs room with
    | none => none
    | some (item, rest) =>
      match skipBlanks rest with
      | ']' :: rest => some ([item], rest)
      | ',' :: rest =>
        (readItems? fuel shape (index + 1) rest room).map fun (items, rest) =>
          (item :: items, rest)
      | _ => none

/-- The members of an object up to its closing brace, at least one. -/
def readMembers? : Nat → Shape → List Char → Nat → Option (List (String × Json) × List Char)
  | 0, _, _, _ => none
  | fuel + 1, shape, cs, room =>
    match skipBlanks cs with
    | '"' :: rest =>
      match readString? rest with
      | none => none
      | some (key, rest) =>
        match skipBlanks rest with
        | ':' :: rest =>
          let read := match shape.member? (.ofList key) with
            | none => (skipValue? fuel rest).map fun rest => ([], rest)
            | some shape => (readValue? fuel shape rest room).map fun (value, rest) =>
              ([(String.ofList key, value)], rest)
          match read with
          | none => none
          | some (member, rest) =>
            match skipBlanks rest with
            | '\x7d' :: rest => some (member, rest)
            | ',' :: rest =>
              (readMembers? fuel shape rest room).map fun (members, rest) =>
                (member ++ members, rest)
            | _ => none
        | _ => none
    | _ => none
end

namespace Json

/-- The value of a JSON text by its shape, with every member as written, repeated keys included. -/
def parseAs? (shape : Shape) (text : String) : Option Json :=
  let cs := text.toList
  match readValue? (cs.length + 1) shape cs nestingLimit with
  | some (value, rest) => if skipBlanks rest = [] then some value else none
  | none => none

/-- The whole value of a JSON text with every member as written. -/
def parse? (text : String) : Option Json := parseAs? .whole text

/-- The value of a JSON text; a repeated key keeps its first place and takes its last value. -/
def read? (text : String) : Option Json :=
  (parse? text).map merged

end Json

end JsonSql
