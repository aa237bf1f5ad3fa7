import JsonSql.Text.Case

set_option autoImplicit false

/-!
# SQL dialects

The five dialects and the points at which their plain vocabulary differs: names, quotes, truth
values and the types of casts.
-/

namespace JsonSql.Sql

/-- A dialect of SQL. -/
inductive Dialect where
  | postgres
  | mysql
  | tsql
  | sqlite
  | duckdb
  deriving DecidableEq, Repr, Inhabited

/-- The types that a value can be cast to. -/
inductive CastType where
  /-- the common text form in which keys of different types are compared -/
  | text
  | integer
  deriving DecidableEq, Repr, Inhabited

namespace Dialect

/-- All dialects. -/
def all : List Dialect := [postgres, mysql, tsql, sqlite, duckdb]

/-- The name of a dialect. -/
def name : Dialect → String
  | postgres => "postgres"
  | mysql => "mysql"
  | tsql => "tsql"
  | sqlite => "sqlite"
  | duckdb => "duckdb"

/-- The names that a dialect is known by, in lower case. -/
def knownNames : Dialect → List String
  | postgres => ["postgres", "postgresql", "pg"]
  | mysql => ["mysql", "mariadb"]
  | tsql => ["tsql", "mssql", "sqlserver"]
  | sqlite => ["sqlite", "sqlite3"]
  | duckdb => ["duckdb"]

/-- The dialect of a name, whatever the case of its letters `A` to `Z`. -/
def ofName? (s : String) : Option Dialect :=
  all.find? fun d => d.knownNames.contains (Text.toLowerAscii s)

/-- What is said of a name that no dialect has. -/
def unknownMessage (s : String) : String :=
  "unknown SQL dialect '" ++ Text.toLowerAscii s ++ "'"

theorem mem_all (d : Dialect) : d ∈ all := by
  cases d <;> decide

/-- The characters that open and close a quoted identifier. -/
def identQuotes : Dialect → Char × Char
  | postgres | sqlite | duckdb => ('"', '"')
  | mysql => ('\x60', '\x60')
  | tsql => ('[', ']')

/-- The spelling of a truth value. -/
def boolText : Dialect → Bool → String
  | postgres, b | duckdb, b => if b then "true" else "false"
  | mysql, b | tsql, b | sqlite, b => if b then "1" else "0"

/-- The name of the type of a cast. -/
def castTypeName : Dialect → CastType → String
  | postgres, .text | sqlite, .text => "TEXT"
  | mysql, .text => "CHAR(255)"
  | tsql, .text => "NVARCHAR(255)"
  | duckdb, .text => "VARCHAR"
  | postgres, .integer | sqlite, .integer | duckdb, .integer => "INTEGER"
  | mysql, .integer => "SIGNED"
  | tsql, .integer => "INT"

/-- Whether a row window is legal only after an ordering. -/
def windowNeedsOrder (d : Dialect) : Bool := d = tsql

end Dialect

end JsonSql.Sql
