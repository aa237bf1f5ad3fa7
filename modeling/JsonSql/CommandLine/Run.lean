import JsonSql.CommandLine.Arguments
import JsonSql.Request.Reader
import JsonSql.Schema.Reader
import JsonSql.Settings.Reader
import JsonSql.Sql.Render
import JsonSql.Statement.Compile

set_option autoImplicit false

/-!
# Running a command

What the program writes and how it exits, as a function of its arguments, of the files and
variables that it can see, and of a stream of letters for aliases.
-/

namespace JsonSql.CommandLine

open JsonSql.Sql

/-- What a path leads to, if to anything. -/
inductive FileContent where
  | text (s : String)
  | unreadable (reason : String)
  deriving DecidableEq, Repr, Inhabited

/-- The world that the program runs in. -/
structure World where
  file : String → Option FileContent
  environment : String → Option String
  letters : Alias.Letters

/-- How a run of the program ends. -/
structure Outcome where
  exitCode : Nat
  output : String := ""
  errors : String := ""
  deriving DecidableEq, Repr, Inhabited

/-- A run that has written a text and a line feed. -/
def Outcome.success (text : String) : Outcome := { exitCode := 0, output := text ++ "\n" }

/-- A run that has failed for a reason. -/
def Outcome.failure (reason : String) : Outcome := { exitCode := 1, errors := reason ++ "\n" }

/-- What is said of a file that is not there. -/
def noSuchFile : String := "No such file or directory (os error 2)"

/-- The text of a file, or why there is none. -/
def World.read (w : World) (path : String) : Except String String :=
  match w.file path with
  | some (.text s) => .ok s
  | some (.unreadable reason) => .error reason
  | none => .error noSuchFile

/-! ## Settings -/

/-- The settings of a file. -/
def World.settings (w : World) (path : String) : Except SettingsError Settings :=
  match w.file path with
  | none => .error (.notFound path)
  | some (.unreadable reason) => .error (.unreadable reason)
  | some (.text s) => Settings.read w.environment s

/-- The variable that names a configuration file. -/
def configVariable : String := "RELQ_CONFIG"

/-- The configuration file that is used where none is named. -/
def localConfig : String := "relq.toml"

/-- The configuration file that is used: the one asked for, that of the variable, or the local one
if it is there. -/
def World.configPath? (w : World) (asked : Option String) : Option String :=
  asked <|> w.environment configVariable <|>
    if (w.file localConfig).isSome then some localConfig else none

/-- The settings that are used. -/
def World.discover (w : World) (asked : Option String) : Except SettingsError Settings :=
  match w.configPath? asked with
  | some path => w.settings path
  | none => .ok {}

/-! ## Commands -/

/-- The schema of a file. -/
def World.schema (w : World) (path : String) : Except SchemaError Schema := do
  Schema.load (← (w.read path).mapError SchemaError.unreadable)

/-- The file that a query argument names, if it is no JSON object itself. -/
def queryPath? (arg : String) : Option String :=
  if (arg.toList.dropWhile Text.isBlank).head? = some '\x7b' then none
  else some ((Text.after? "@" arg).getD arg)

/-- The JSON text of a query argument. -/
def World.query (w : World) (arg : String) : Except String String :=
  match queryPath? arg with
  | none => .ok arg
  | some path => (w.read path).mapError fun reason =>
    "Error reading query file '" ++ path ++ "': " ++ reason

/-- The request of a JSON text. -/
def readRequest (text : String) : Except String Request :=
  match Json.read? text with
  | none => .error "Invalid query: query is not valid JSON"
  | some json => (Request.ofJson json).mapError fun e => "Invalid query: " ++ e.message

/-- Compiles a request and gives the statement. -/
def World.compile (w : World) (settings : Settings) (schema collection query : String)
    (dialect : Option Dialect) : Except String String := do
  let s ← (w.schema schema).mapError fun e =>
    "Error loading schema '" ++ schema ++ "': " ++ e.message
  let request ← readRequest (← w.query query)
  let options := { settings.options with dialect := dialect.getD settings.options.dialect }
  let compiler : Compiler := {
    provider := s.provider
    options
    names := Alias.names options.aliasStyle options.aliasLength w.letters }
  let q ← (compiler.compile collection request).mapError fun e =>
    "Compilation error: " ++ e.message
  return q.sql options.dialect

/-- Checks a schema and gives a report. -/
def World.checkSchema (w : World) (schema : String) : Except String String := do
  let s ← (w.schema schema).mapError fun e =>
    "✗ Schema '" ++ schema ++ "' is invalid: " ++ e.message
  let counts := s.summary
  return "✓ Schema '" ++ schema ++ "' is valid\n\n" ++
    "  Collections: " ++ toString counts.collections ++ "\n" ++
    "  Fields:      " ++ toString counts.fields ++ "\n" ++
    "  Relations:   " ++ toString counts.relations

/-- Runs a command. -/
def World.execute (w : World) (config : Option String) (command : Command) :
    Except String String := do
  let settings ← (w.discover config).mapError fun e => "Error loading config: " ++ e.message
  match command with
  | .compile schema collection query dialect =>
    w.compile settings schema collection query dialect
  | .checkSchema schema => w.checkSchema schema

/-- The name and the version of the program. -/
def versionText : String := "relq 0.1.0"

/-- How the program is used. -/
def usageText : String :=
  "Usage: relq [--config <file>] compile --schema <file> --collection <name> --query <json> " ++
    "[--dialect <dialect>]\n" ++
    "       relq [--config <file>] check-schema --schema <file>"

/-- Runs the program. -/
def run (w : World) (args : List String) : Outcome :=
  match readArguments? [] args with
  | none => { exitCode := 2, errors := usageText ++ "\n" }
  | some .help => .success usageText
  | some .version => .success versionText
  | some (.run config command) =>
    match w.execute config command with
    | .ok text => .success text
    | .error reason => .failure reason

end JsonSql.CommandLine
