import JsonSql.Statement.Context

set_option autoImplicit false

/-!
# Settings

What a configuration file sets: the options of compilation and the level of messages.
-/

namespace JsonSql

/-- The settings of the program. -/
structure Settings where
  options : Options := {}
  logLevel : String := "info"
  deriving DecidableEq, Repr, Inhabited

/-- Why settings cannot be used. -/
inductive SettingsError where
  | notFound (path : String)
  | unreadable (reason : String)
  /-- the text is no TOML, or a value is not of the right type -/
  | malformed
  | missingVariable (name : String)
  /-- the length of aliases is out of bounds -/
  | aliasLength (n : Nat)
  /-- a limit is below -1 -/
  | limit (name : String) (n : Int)
  deriving DecidableEq, Repr, Inhabited

/-- What is said of settings that cannot be used. -/
def SettingsError.message : SettingsError → String
  | notFound path => "Config file not found: " ++ path
  | unreadable reason => "Failed to read config file: " ++ reason
  | malformed => "Failed to parse config file"
  | missingVariable name => "Missing environment variable: " ++ name
  | aliasLength n =>
    "Invalid configuration: compiler.alias_length must be between 1 and 32, got " ++ toString n
  | limit name n =>
    "Invalid configuration: " ++ name ++ " must be -1 or a positive number, got " ++ toString n

namespace Settings

/-- Checks a limit. -/
def checkLimit (name : String) (n : Int) : Except SettingsError Unit :=
  if n < -1 then .error (.limit name n) else .ok ()

/-- Checks that the values of settings lie within their bounds. -/
def validate (s : Settings) : Except SettingsError Unit := do
  let length := s.options.aliasLength
  if length < 1 ∨ 32 < length then throw (.aliasLength length)
  checkLimit "query.default_limit" s.options.defaultLimit
  checkLimit "query.max_limit" s.options.maxLimit

end Settings

end JsonSql
