import JsonSql.Settings.Basic
import JsonSql.Settings.Variables
import JsonSql.Toml.Reader

set_option autoImplicit false

/-!
# Reading settings

Settings are a TOML text of three tables.  Every string in it is expanded before the values are
looked at; what is missing keeps its default, and unknown members do not count.  A record may also
be an array of its members in order, and a choice a table with one empty member.
-/

namespace JsonSql.Settings

/-! ## Values -/

/-- The members of a record that is a table or an array of its members in order. -/
def recordOf? (names : List String) : Toml → Option (List (String × Toml))
  | .table members => some members
  | .array items => if items.length ≤ names.length then some (names.zip items) else none
  | _ => none

/-- A member that may be missing. -/
def memberOr? {α : Type} (members : List (String × Toml)) (name : String) (absent : α)
    (decode : Toml → Option α) : Option α :=
  match member? name members with
  | none => some absent
  | some value => decode value

/-- An integer. -/
def asInteger? : Toml → Option Int
  | .integer n => some n
  | _ => none

/-- An integer that is not negative. -/
def asNat? : Toml → Option Nat
  | .integer (.ofNat n) => some n
  | _ => none

/-- A text; a date or time stands for its written form. -/
def asText? : Toml → Option String
  | .string s | .dateTime s => some s
  | _ => none

/-- The name of a choice: a string, or the key of a table with one empty member. -/
def asChoice? : Toml → Option String
  | .string s | .table [(s, .table [])] | .table [(s, .array [])] => some s
  | _ => none

/-- The dialect with a name in settings, where the case of letters counts. -/
def dialectOf? (name : String) : Option Sql.Dialect :=
  if name = "mssql" then some .tsql else Sql.Dialect.all.find? fun d => d.name = name

/-! ## Settings -/

/-- The options that the `compiler` table sets. -/
def readCompiler? (o : Options) (value : Toml) : Option Options := do
  let members ← recordOf? ["dialect", "alias_style", "alias_length"] value
  return { o with
    dialect := ← memberOr? members "dialect" o.dialect fun v => (asChoice? v).bind dialectOf?
    aliasStyle :=
      ← memberOr? members "alias_style" o.aliasStyle fun v => (asChoice? v).bind AliasStyle.ofName?
    aliasLength := ← memberOr? members "alias_length" o.aliasLength asNat? }

/-- The options that the `query` table sets. -/
def readQuery? (o : Options) (value : Toml) : Option Options := do
  let members ← recordOf? ["default_limit", "max_limit"] value
  return { o with
    defaultLimit := ← memberOr? members "default_limit" o.defaultLimit asInteger?
    maxLimit := ← memberOr? members "max_limit" o.maxLimit asInteger? }

/-- The level that the `logging` table sets. -/
def readLogging? (level : String) (value : Toml) : Option String := do
  let members ← recordOf? ["level"] value
  memberOr? members "level" level asText?

/-- The settings of a value. -/
def ofToml? (value : Toml) : Option Settings := do
  let members ← recordOf? ["compiler", "query", "logging"] value
  let o : Options := {}
  let o ← memberOr? members "compiler" o (readCompiler? o)
  let o ← memberOr? members "query" o (readQuery? o)
  let logLevel ← memberOr? members "logging" "info" (readLogging? "info")
  return { options := o, logLevel }

/-- The settings of a text, within their bounds. -/
def read (environment : String → Option String) (text : String) :
    Except SettingsError Settings := do
  let some value := Toml.parse? text | throw .malformed
  let value ← (expandValue environment value).mapError fun e => SettingsError.missingVariable e.name
  let some settings := ofToml? value | throw .malformed
  settings.validate
  return settings

end JsonSql.Settings
