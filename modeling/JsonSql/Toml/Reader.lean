import JsonSql.Toml.Outline
import JsonSql.Toml.Scalar

set_option autoImplicit false

/-!
# Reading TOML

A document is a sequence of lines, each of which is empty, opens a table by its header, or sets a
key to a value; a comment may end it.  Arrays and tables in braces may spread over lines and end in
a comma.
-/

namespace JsonSql.Toml

/-- The greatest number of arrays and tables in braces one inside another, and of the segments of a
key. -/
def nestingLimit : Nat := 80

/-! ## Blanks and comments -/

/-- The characters without blanks in front. -/
def skipSpaces (cs : List Char) : List Char := cs.dropWhile isSpace

/-- The characters without a comment in front, if it holds no control character. -/
def skipComment? : List Char → Option (List Char)
  | '#' :: rest =>
    let (comment, rest) := cutBefore isLineEnd rest
    if comment.any isControl then none else some rest
  | rest => some rest

/-- The characters without the blanks, comments and ends of lines in front; the first argument says
whether a comment is open. -/
def skipLines? : (inComment : Bool) → List Char → Option (List Char)
  | _, [] => some []
  | true, c :: cs =>
    if isLineEnd c then skipLines? false cs
    else if isControl c then none
    else skipLines? true cs
  | false, c :: cs =>
    if isSpace c || isLineEnd c then skipLines? false cs
    else if c = '#' then skipLines? true cs
    else some (c :: cs)

/-! ## Keys -/

/-- A character of a key without quotes. -/
def isKeyChar (c : Char) : Bool := c.isAlphanum || c = '_' || c = '-'

/-- One segment of a key, and the rest. -/
def readSegment? (cs : List Char) : Option (String × List Char) :=
  match cs with
  | '"' :: rest => (readBasic? rest).map fun (cs, rest) => (.ofList cs, rest)
  | '\x27' :: rest => (readLiteral? rest).map fun (cs, rest) => (.ofList cs, rest)
  | _ =>
    let (word, rest) := cutBefore (fun c => !isKeyChar c) cs
    if word = [] then none else some (.ofList word, rest)

/-- At most so many segments with dots between them, and the rest without blanks in front. -/
def readSegments? : (most : Nat) → List Char → Option (List String × List Char)
  | 0, _ => none
  | most + 1, cs => do
    let (segment, rest) ← readSegment? (skipSpaces cs)
    match skipSpaces rest with
    | '.' :: rest =>
      let (segments, rest) ← readSegments? most rest
      return (segment :: segments, rest)
    | rest => return ([segment], rest)

/-- The segments of a key, and the rest without blanks in front. -/
def readKey? (cs : List Char) : Option (List String × List Char) := readSegments? nestingLimit cs

/-! ## Values

The fuel bounds the number of values and items read one inside or after another; each takes at
least one character, so the length of the text is enough. -/

mutual
/-- A value at the front, and the rest.  The third argument counts the arrays and tables that may
still be opened. -/
def readValue? : Nat → List Char → Nat → Option (Meaning × List Char)
  | 0, _, _ => none
  | fuel + 1, cs, room =>
    match cs, room with
    | '[' :: _, 0 | '\x7b' :: _, 0 => none
    | '[' :: rest, room + 1 =>
      (readItems? fuel rest room).map fun (items, rest) => (.array <$> items.mapM id, rest)
    | '\x7b' :: rest, room + 1 =>
      (readMembers? fuel rest [] room).map fun (entries, rest) =>
        ((Outline.table .dotted entries).meaning, rest)
    | cs, _ =>
      match readQuoted? cs with
      | some quoted => quoted.map fun (cs, rest) => (some (.string (.ofList cs)), rest)
      | none =>
        let (word, rest) := takeScalar cs
        (scalar? word).map fun v => (v, rest)

/-- The items of an array up to its closing bracket. -/
def readItems? : Nat → List Char → Nat → Option (List Meaning × List Char)
  | 0, _, _ => none
  | fuel + 1, cs, room => do
    match ← skipLines? false cs with
    | ']' :: rest => return ([], rest)
    | cs =>
      let (item, rest) ← readValue? fuel cs room
      match ← skipLines? false rest with
      | ']' :: rest => return ([item], rest)
      | ',' :: rest =>
        let (items, rest) ← readItems? fuel rest room
        return (item :: items, rest)
      | _ => none

/-- The members of a table in braces up to the closing one, put to those that are there. -/
def readMembers? : Nat → List Char → Entries → Nat → Option (Entries × List Char)
  | 0, _, _, _ => none
  | fuel + 1, cs, entries, room => do
    match ← skipLines? false cs with
    | '\x7d' :: rest => return (entries, rest)
    | cs =>
      let (path, rest) ← readKey? cs
      match ← skipLines? false rest with
      | '=' :: rest =>
        let (v, rest) ← readValue? fuel (← skipLines? false rest) room
        let (_, entries) ← setPath path v .header entries
        match ← skipLines? false rest with
        | '\x7d' :: rest => return (entries, rest)
        | ',' :: rest => readMembers? fuel rest entries room
        | _ => none
      | _ => none
end

/-! ## Documents -/

/-- A document that is being read: its tables, and the path of the one that is open. -/
structure Document where
  entries : Entries := []
  opened : List String := []
  deriving Inhabited

/-- A change of a document at a path from its root. -/
def Document.change (d : Document) (path : List String) (change : Change) : Option Document :=
  (changeAt false change path .header d.entries).map fun (_, entries) => { d with entries }

/-- The document after a header. -/
def Document.header (d : Document) (isRow : Bool) (path : List String) : Option Document := do
  let key := path.getLast?.getD ""
  let d ← d.change path.dropLast (if isRow then openRow key else openTable key)
  return { d with opened := path }

/-- The header of a table at the front, after its opening bracket, and the rest. -/
def readHeader? (d : Document) (cs : List Char) : Option (Document × List Char) := do
  let (isRow, cs) := match cs with
    | '[' :: rest => (true, rest)
    | _ => (false, cs)
  let (path, rest) ← readKey? cs
  match isRow, rest with
  | true, ']' :: ']' :: rest | false, ']' :: rest => return (← d.header isRow path, rest)
  | _, _ => none

/-- A key and its value at the front, and the rest. -/
def readSetting? (fuel : Nat) (d : Document) (cs : List Char) : Option (Document × List Char) := do
  let (path, rest) ← readKey? cs
  match rest with
  | '=' :: rest =>
    let (v, rest) ← readValue? fuel (skipSpaces rest) nestingLimit
    return (← d.change d.opened (setPath path v), rest)
  | _ => none

/-- What stands on a line but for its comment, and the rest. -/
def readLine? (fuel : Nat) (d : Document) (cs : List Char) : Option (Document × List Char) :=
  match skipSpaces cs with
  | [] => some (d, [])
  | '\n' :: rest => some (d, '\n' :: rest)
  | '\r' :: rest => some (d, '\r' :: rest)
  | '#' :: rest => some (d, '#' :: rest)
  | '[' :: rest => readHeader? d rest
  | cs => readSetting? fuel d cs

/-- The lines of a document one after another, each of which takes one of the rounds.  There are as
many rounds left as characters, which is enough for the value of a line too. -/
def readDocument? : (rounds : Nat) → Document → List Char → Option Document
  | 0, _, _ => none
  | rounds + 1, d, cs => do
    let (d, rest) ← readLine? rounds d cs
    match ← skipComment? (skipSpaces rest) with
    | [] => return d
    | '\n' :: rest | '\r' :: '\n' :: rest => readDocument? rounds d rest
    | _ => none

/-- Whether every carriage return stands before a line feed. -/
def returnsEndLines : List Char → Bool
  | [] => true
  | '\r' :: '\n' :: rest => returnsEndLines rest
  | '\r' :: _ => false
  | _ :: rest => returnsEndLines rest

/-- The characters without a byte order mark in front. -/
def dropByteOrderMark : List Char → List Char
  | '\uFEFF' :: rest => rest
  | cs => cs

/-- The table of a TOML text.  In the table of the whole document no key is reserved. -/
def parse? (text : String) : Option Toml := do
  let cs := dropByteOrderMark text.toList
  if returnsEndLines cs then
    let d ← readDocument? (cs.length + 1) {} cs
    let members ← (entryMeanings d.entries).mapM fun (key, v) => (key, ·) <$> v
    return .table (inKeyOrder members)
  else none

end JsonSql.Toml
