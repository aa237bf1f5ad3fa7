import JsonSql.Sql.Dialect
import JsonSql.Text.Split

set_option autoImplicit false

/-!
# Arguments of the command line

A command with options, each of which takes a value: `--name value`, `--name=value`, `-n value`,
`-nvalue` or `-n=value`.  An option is given at most once before the command and once after it.
-/

namespace JsonSql.CommandLine

open JsonSql.Sql

/-- What the program is asked to do. -/
inductive Command where
  /-- to compile a request against a collection -/
  | compile (schema collection query : String) (dialect : Option Dialect)
  /-- to check a schema -/
  | checkSchema (schema : String)
  deriving DecidableEq, Repr, Inhabited

/-- What arguments ask for. -/
inductive Task where
  | help
  | version
  | run (config : Option String) (command : Command)
  deriving DecidableEq, Repr, Inhabited

/-- The commands by name. -/
inductive CommandName where
  | compile
  | checkSchema
  deriving DecidableEq, Repr, Inhabited

/-- The command with a name. -/
def CommandName.ofName? : String → Option CommandName
  | "compile" => some .compile
  | "check-schema" => some .checkSchema
  | _ => none

/-! ## Options -/

/-- An option. -/
inductive OptionName where
  | config
  | schema
  | collection
  | query
  | dialect
  deriving DecidableEq, Repr, Inhabited

namespace OptionName

/-- The long name of an option. -/
def long : OptionName → String
  | config => "config"
  | schema => "schema"
  | collection => "collection"
  | query => "query"
  | dialect => "dialect"

/-- The letter of an option, if it has one. -/
def short? : OptionName → Option Char
  | config => some 'c'
  | schema => some 's'
  | collection => none
  | query => some 'q'
  | dialect => some 'd'

/-- The options that may stand before a command, or after it. -/
def allowed : Option CommandName → List OptionName
  | none => [config]
  | some .compile => [config, schema, collection, query, dialect]
  | some .checkSchema => [config, schema]

end OptionName

/-- The dialect of a value of the option. -/
def dialectOfArgument? : String → Option Dialect
  | "postgres" => some .postgres
  | "mysql" => some .mysql
  | "mssql" => some .tsql
  | "sqlite" => some .sqlite
  | "duckdb" => some .duckdb
  | _ => none

/-- Whether an option takes a value: a path is not empty, and a dialect is one of those known. -/
def OptionName.accepts (option : OptionName) (value : String) : Bool :=
  match option with
  | .config | .schema => value ≠ ""
  | .collection | .query => true
  | .dialect => (dialectOfArgument? value).isSome

/-- The options given so far. -/
abbrev Given := List (OptionName × String)

/-- The value of an option. -/
def Given.value? (given : Given) (option : OptionName) : Option String := given.lookup option

/-- One more option; nothing if it is there already or does not take the value. -/
def Given.add? (given : Given) (option : OptionName) (value : String) : Option Given :=
  if (given.value? option).isSome || !option.accepts value then none
  else some ((option, value) :: given)

/-! ## Arguments -/

/-- What one argument is. -/
inductive Argument where
  | help
  | version
  /-- an option, with its value if the argument holds it -/
  | option (name : OptionName) (value : Option String)
  /-- the mark after which no options follow -/
  | endOfOptions
  | word (s : String)
  /-- an option that is not known here -/
  | unknown
  deriving DecidableEq, Repr, Inhabited

/-- An argument after two hyphens. -/
def longArgument (command : Option CommandName) (s : String) : Argument :=
  let (name, value) := match Text.splitOnce? '=' s with
    | some (name, value) => (name, some value)
    | none => (s, none)
  match (OptionName.allowed command).find? fun o => o.long = name with
  | some o => .option o value
  | none =>
    if value.isSome then .unknown
    else if name = "help" then .help
    else if name = "version" && command.isNone then .version
    else .unknown

/-- An argument of letters after a hyphen.  What follows the letter of an option is its value. -/
def shortArgument (command : Option CommandName) (letter : Char) (rest : List Char) : Argument :=
  match (OptionName.allowed command).find? fun o => o.short? = some letter with
  | some o => .option o (match rest with
    | [] => none
    | '=' :: value => some (.ofList value)
    | value => some (.ofList value))
  | none =>
    if letter = 'h' then .help
    else if letter = 'V' && command.isNone then .version
    else .unknown

/-- What an argument is, before a command or after it. -/
def argument (command : Option CommandName) (s : String) : Argument :=
  match s.toList with
  | ['-', '-'] => .endOfOptions
  | '-' :: '-' :: name => longArgument command (.ofList name)
  | '-' :: letter :: rest => shortArgument command letter rest
  | _ => .word s

/-- Whether an argument can be the value of the option before it. -/
def isValue (s : String) : Bool := s = "-" || (Text.after? "-" s).isNone

/-- What the options after a command ask for. -/
def taskOf? (config : Option String) (command : CommandName) (given : Given) : Option Task := do
  let config := given.value? .config <|> config
  let schema ← given.value? .schema
  match command with
  | .checkSchema => return .run config (.checkSchema schema)
  | .compile =>
    let collection ← given.value? .collection
    let query ← given.value? .query
    let dialect := (given.value? .dialect).bind dialectOfArgument?
    return .run config (.compile schema collection query dialect)

/-- What the arguments after a command ask for. -/
def readOptions? (config : Option String) (command : CommandName) :
    Given → List String → Option Task
  | given, [] => taskOf? config command given
  | given, s :: rest =>
    match argument (some command) s with
    | .help => some .help
    | .option o (some value) => (given.add? o value).bind fun given =>
      readOptions? config command given rest
    | .option o none =>
      match rest with
      | value :: rest =>
        if isValue value then (given.add? o value).bind fun given =>
          readOptions? config command given rest
        else none
      | [] => none
    | .endOfOptions => if rest = [] then taskOf? config command given else none
    | .version | .word _ | .unknown => none

/-- What arguments ask for; nothing if they are not understood. -/
def readArguments? : Given → List String → Option Task
  | _, [] => none
  | given, s :: rest =>
    match argument none s with
    | .help => some .help
    | .version => some .version
    | .option o (some value) => (given.add? o value).bind fun given => readArguments? given rest
    | .option o none =>
      match rest with
      | value :: rest =>
        if isValue value then (given.add? o value).bind fun given => readArguments? given rest
        else none
      | [] => none
    | .word name =>
      match CommandName.ofName? name with
      | some command => readOptions? (given.value? .config) command [] rest
      | none =>
        if name = "help" ∧ rest.length ≤ 1 ∧ rest.all (fun s => (CommandName.ofName? s).isSome)
        then some .help
        else none
    | .endOfOptions | .unknown => none

end JsonSql.CommandLine
