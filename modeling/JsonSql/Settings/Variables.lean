import JsonSql.Text.Alphanumeric
import JsonSql.Toml.Basic

set_option autoImplicit false

/-!
# Variables in texts

A text refers to variables of the environment as `${name}` or `$name`.  The name in braces goes up
to the closing one or to the end, the other one as far as there are letters, digits and underscores;
a dollar sign before none of them stands for itself.  Values are put in as they are, in one pass
over the text that reads each character once; what a text refers to can be told without values.
-/

namespace JsonSql.Settings

/-- A character of the name of a variable. -/
def isNameChar (c : Char) : Bool := Text.isAlphanumeric c || c = '_'

/-! ## Expansion -/

/-- Why a text cannot be expanded: a variable is not set. -/
structure MissingVariable where
  name : String
  deriving DecidableEq, Repr, Inhabited

/-- The value of a variable. -/
def valueOf (environment : String → Option String) (name : List Char) :
    Except MissingVariable (List Char) :=
  match environment (.ofList name) with
  | some value => .ok value.toList
  | none => .error ⟨.ofList name⟩

/-- What a pass over a text is in the middle of. -/
inductive Reading where
  /-- no reference -/
  | plain
  /-- a dollar sign was read -/
  | dollar
  /-- a name in braces was read so far -/
  | braced (name : List Char)
  /-- a name without braces was read so far -/
  | bare (name : List Char)
  deriving DecidableEq, Repr, Inhabited

namespace Reading

/-- What is written for a character outside of references, and what comes then. -/
def outside (c : Char) : List Char × Reading := if c = '$' then ([], dollar) else ([c], plain)

/-- What is written at the next character, and what the pass is in the middle of then. -/
def next (environment : String → Option String) (c : Char) :
    Reading → Except MissingVariable (List Char × Reading)
  | plain => .ok (outside c)
  | dollar =>
    if c = '\x7b' then .ok ([], braced [])
    else if isNameChar c then .ok ([], bare [c])
    else .ok ('$' :: (outside c).1, (outside c).2)
  | braced name =>
    if c = '\x7d' then (·, plain) <$> valueOf environment name
    else .ok ([], braced (name ++ [c]))
  | bare name =>
    if isNameChar c then .ok ([], bare (name ++ [c]))
    else (· ++ (outside c).1, (outside c).2) <$> valueOf environment name

/-- What is written at the end of the text. -/
def finish (environment : String → Option String) : Reading → Except MissingVariable (List Char)
  | plain => .ok []
  | dollar => .ok ['$']
  | braced name | bare name => valueOf environment name

/-- What is written for the rest of a text. -/
def run (environment : String → Option String) :
    Reading → List Char → Except MissingVariable (List Char)
  | reading, [] => reading.finish environment
  | reading, c :: rest => do
    let (written, reading) ← reading.next environment c
    return written ++ (← reading.run environment rest)

end Reading

/-- A text with the values of variables in the place of references to them. -/
def expand (environment : String → Option String) (text : String) :
    Except MissingVariable String :=
  .ofList <$> Reading.plain.run environment text.toList

mutual
/-- A value with every string in it expanded, members in the order of their table. -/
def expandValue (environment : String → Option String) : Toml → Except MissingVariable Toml
  | .string s => .string <$> expand environment s
  | .array items => .array <$> expandItems environment items
  | .table members => .table <$> expandMembers environment members
  | other => .ok other

/-- Every item expanded. -/
def expandItems (environment : String → Option String) :
    List Toml → Except MissingVariable (List Toml)
  | [] => .ok []
  | item :: rest => do
    return (← expandValue environment item) :: (← expandItems environment rest)

/-- The value of every member expanded. -/
def expandMembers (environment : String → Option String) :
    List (String × Toml) → Except MissingVariable (List (String × Toml))
  | [] => .ok []
  | (key, value) :: rest => do
    return (key, ← expandValue environment value) :: (← expandMembers environment rest)
end

/-! ## References -/

/-- A piece of a text. -/
inductive Piece where
  | char (c : Char)
  | reference (name : String)
  deriving DecidableEq, Repr, Inhabited

/-- The pieces of a text. -/
def pieces : List Char → List Piece
  | [] => []
  | c :: rest =>
    if c = '$' then
      match rest with
      | '\x7b' :: rest =>
        let name := rest.takeWhile (· ≠ '\x7d')
        .reference (.ofList name) :: pieces (rest.drop (name.length + 1))
      | rest =>
        let name := rest.takeWhile isNameChar
        if name = [] then .char '$' :: pieces rest
        else .reference (.ofList name) :: pieces (rest.drop name.length)
    else .char c :: pieces rest
termination_by cs => cs.length
decreasing_by all_goals simp_all; try omega

/-- The variables that a text refers to. -/
def references (text : String) : List String :=
  (pieces text.toList).filterMap fun
    | .reference name => some name
    | .char _ => none

mutual
/-- The variables that the strings of a value refer to. -/
def referencesOf : Toml → List String
  | .string s => references s
  | .array items => referencesOfItems items
  | .table members => referencesOfMembers members
  | _ => []

/-- The variables that items refer to. -/
def referencesOfItems : List Toml → List String
  | [] => []
  | item :: rest => referencesOf item ++ referencesOfItems rest

/-- The variables that the values of members refer to. -/
def referencesOfMembers : List (String × Toml) → List String
  | [] => []
  | (_, value) :: rest => referencesOf value ++ referencesOfMembers rest
end

end JsonSql.Settings
