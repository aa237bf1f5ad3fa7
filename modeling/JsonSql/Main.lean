import JsonSql.CommandLine.Run

set_option autoImplicit false

/-!
# The program

Looks at the files and variables that a command may need, runs it, and writes what it gives.
-/

namespace JsonSql.CommandLine

/-- What a path leads to. -/
def lookAt (path : String) : IO (Option FileContent) := do
  try
    return some (.text (← IO.FS.readFile path))
  catch
    | .noFileOrDirectory .. => return none
    | e => return some (.unreadable (toString e))

/-- The paths that a command may read apart from its settings. -/
def Command.paths : Command → List String
  | .compile schema _ query _ => schema :: (queryPath? query).toList
  | .checkSchema schema => [schema]

/-- The variables that the settings of a file refer to. -/
def variablesOf : Option FileContent → List String
  | some (.text s) => ((Toml.parse? s).map Settings.referencesOf).getD []
  | _ => []

/-- The world as a command may see it. -/
def observe (args : List String) : IO World := do
  let (asked, paths) := match readArguments? [] args with
    | some (.run config command) => (config, command.paths)
    | _ => (none, [])
  let named ← IO.getEnv configVariable
  let config := (asked <|> named).getD localConfig
  let files ← (config :: paths).mapM fun path => do return (path, ← lookAt path)
  let names := variablesOf ((files.lookup config).join)
  let values ← names.mapM fun name => do return (name, ← IO.getEnv name)
  let seed ← IO.rand 0 (Decimal.int64Limit - 1)
  return {
    file := fun path => (files.lookup path).join
    environment := fun name => (((configVariable, named) :: values).lookup name).join
    letters := fun i => ⟨(mixHash (hash seed) (hash i)).toNat % 26, Nat.mod_lt _ (by decide)⟩ }

end JsonSql.CommandLine

/-- Runs the program on its arguments. -/
def main (args : List String) : IO UInt32 := do
  let outcome := JsonSql.CommandLine.run (← JsonSql.CommandLine.observe args) args
  IO.print outcome.output
  IO.eprint outcome.errors
  return outcome.exitCode.toUInt32
