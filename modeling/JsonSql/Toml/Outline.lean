import JsonSql.Json.Basic
import JsonSql.Toml.Basic
import JsonSql.Toml.DateTime

set_option autoImplicit false

/-!
# Outlines of documents

A document grows line by line: a header opens a table, an item sets a key in the table that is
open.  Tables know how they came about, because a table may be opened by a header once, and only
tables that dotted keys made may be added to by dotted keys.  At the end the outline becomes a
value, in which a table with the reserved key of dates is a date.
-/

namespace JsonSql.Toml

/-- How a table came about. -/
inductive TableOrigin where
  /-- the header of a table within it -/
  | implied
  /-- its own header -/
  | header
  /-- a dotted key -/
  | dotted
  deriving DecidableEq, Repr, Inhabited

/-- What stands under a key. -/
inductive Outline where
  /-- a value, to which nothing can be added -/
  | value (v : Meaning)
  | table (origin : TableOrigin) (entries : List (String × Outline))
  /-- tables that headers have listed, the last one first -/
  | tables (rows : List (List (String × Outline)))
  deriving Inhabited

/-- The entries of a table by key. -/
abbrev Entries := List (String × Outline)

/-- A change of a table, which may be refused. -/
abbrev Change := TableOrigin → Entries → Option (TableOrigin × Entries)

/-- Makes a change in the table at the end of a path.  Tables on the path that are missing are made.
Through a list of tables, a path leads to the last of them. -/
def changeAt (dotted : Bool) (change : Change) : List String → Change
  | [], origin, entries => change origin entries
  | key :: rest, origin, entries =>
    let enter (old : TableOrigin) (inner : Entries) : Option (TableOrigin × Entries) := do
      let (new, inner) ← changeAt dotted change rest old inner
      return (origin, putMember key (.table new inner) entries)
    match member? key entries with
    | none => enter (if dotted then .dotted else .implied) []
    | some (.table old inner) => if dotted && old = .header then none else enter old inner
    | some (.tables (row :: rows)) => do
      let (_, row) ← changeAt dotted change rest .header row
      return (origin, putMember key (.tables (row :: rows)) entries)
    | some _ => none

/-- Sets a key to a value.  A key that is there already is not set again, and tables that headers
made take no dotted keys. -/
def setKey (isDotted : Bool) (key : String) (v : Meaning) : Change := fun origin entries =>
  if (isDotted && origin ≠ .dotted) || (member? key entries).isSome then none
  else some (origin, entries ++ [(key, .value v)])

/-- Opens the table of a key. -/
def openTable (key : String) : Change := fun origin entries =>
  match member? key entries with
  | none => some (origin, putMember key (.table .header []) entries)
  | some (.table .implied inner) => some (origin, putMember key (.table .header inner) entries)
  | some _ => none

/-- Opens one more table in the list of tables of a key. -/
def openRow (key : String) : Change := fun origin entries =>
  match member? key entries with
  | none => some (origin, putMember key (.tables [[]]) entries)
  | some (.tables rows) => some (origin, putMember key (.tables ([] :: rows)) entries)
  | some _ => none

/-- Sets a key of one or more segments. -/
def setPath (path : List String) (v : Meaning) : Change :=
  let above := path.dropLast
  changeAt true (setKey (!above.isEmpty) (path.getLast?.getD "") v) above

/-! ## Values -/

/-- The reserved key of dates: a table whose first key it is stands for the date, the time of day or
both that its text gives, whatever else the table holds. -/
def dateKey : String := "$__toml_private_datetime"

/-- The meaning of a table by those of its members in the order of their keys. -/
def tableMeaning (members : List (String × Meaning)) : Meaning :=
  match members with
  | (key, v) :: _ =>
    if key = dateKey then
      match v with
      | some (.string text) => (dateTime? text.toList).map .dateTime
      | _ => none
    else Toml.table <$> members.mapM fun (key, v) => (key, ·) <$> v
  | [] => some (.table [])

mutual
/-- The meaning of an outline. -/
def Outline.meaning : Outline → Meaning
  | .value v => v
  | .table _ entries => tableMeaning (inKeyOrder (entryMeanings entries))
  | .tables rows => (fun rows => Toml.array rows.reverse) <$> rowMeanings rows

/-- The meanings of entries by key. -/
def entryMeanings : List (String × Outline) → List (String × Meaning)
  | [] => []
  | (key, outline) :: rest => (key, outline.meaning) :: entryMeanings rest

/-- The values of rows, if they all have one. -/
def rowMeanings : List (List (String × Outline)) → Option (List Toml)
  | [] => some []
  | row :: rest => do
    return (← tableMeaning (inKeyOrder (entryMeanings row))) :: (← rowMeanings rest)
end

end JsonSql.Toml
