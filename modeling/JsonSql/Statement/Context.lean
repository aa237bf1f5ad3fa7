import JsonSql.Request.Error
import JsonSql.Schema.Link
import JsonSql.Sql.Expr
import JsonSql.Statement.Alias
import JsonSql.Text.Split

set_option autoImplicit false

/-!
# Contexts of compilation

What the compilation of a request may look at, and what it changes: the number of aliases issued so
far, the statement that is being built and the joins recorded in it.
-/

namespace JsonSql

open JsonSql.Sql

/-- What shapes a statement apart from the request. -/
structure Options where
  dialect : Dialect := .postgres
  aliasStyle : AliasStyle := .random
  /-- the length that random aliases start with -/
  aliasLength : Nat := 5
  /-- the limit where a request has none; a negative one stands for no limit -/
  defaultLimit : Int := 100
  /-- the greatest limit; a negative one stands for no bound -/
  maxLimit : Int := -1
  deriving DecidableEq, Repr, Inhabited

/-- What the compilation of a request may look at. -/
structure Context where
  provider : Provider
  relations : List Relation
  options : Options
  /-- the aliases in the order of issue -/
  names : Nat → String

/-- A step of a compilation, which counts the aliases issued so far and may fail. -/
abbrev Compile := StateT Nat (Except QueryError)

namespace Context

/-- The dialect of the statement. -/
def dialect (c : Context) : Dialect := c.options.dialect

/-- An alias that is not issued yet. -/
def freshAlias (c : Context) : Compile String := fun k => .ok (c.names k, k + 1)

/-- An answer of the schema. -/
def ask {α : Type} (answer : Except SchemaError α) : Compile α :=
  match answer with
  | .ok a => pure a
  | .error e => throw (.schema e)

/-- A collection that has to exist. -/
def collection (c : Context) (name : String) : Compile CollectionInfo := do
  match ← ask (c.provider.collection name) with
  | some info => return info
  | none => throw (.unknownCollection name)

/-- The primary key of a collection. -/
def primary (c : Context) (name : String) : Compile String :=
  CollectionInfo.primary <$> c.collection name

/-- A field that has to exist. -/
def field (c : Context) (collection name : String) : Compile Field := do
  match ← ask (c.provider.field collection name) with
  | some f => return f
  | none => throw (.unknownField collection name)

/-- How a segment leads on from a collection. -/
def link (c : Context) (collection segment : String) : Link :=
  JsonSql.link c.relations collection segment

end Context

/-! ## Joins of a statement -/

/-- A join: the name that it goes by and the collection that the name stands for. -/
structure Hop where
  name : String
  collection : String
  deriving DecidableEq, Repr, Inhabited

/-- The joins of a statement by the path that leads to each. -/
structure Hops where
  entries : List (String × Hop) := []
  deriving DecidableEq, Repr, Inhabited

namespace Hops

/-- A path as one text. -/
def key (path : List String) : String := Text.join '.' path

/-- The join of a path. -/
def get? (hops : Hops) (path : List String) : Option Hop := member? (key path) hops.entries

/-- The joins with that of a path put in. -/
def insert (hops : Hops) (path : List String) (hop : Hop) : Hops :=
  ⟨putMember (key path) hop hops.entries⟩

/-- The number of joins. -/
def size (hops : Hops) : Nat := hops.entries.length

@[simp] theorem get?_insert_self (hops : Hops) (path : List String) (hop : Hop) :
    (hops.insert path hop).get? path = some hop := by
  simp [insert, get?]

theorem get?_insert_of_ne (hops : Hops) {path other : List String} (h : key other ≠ key path)
    (hop : Hop) : (hops.insert path hop).get? other = hops.get? other := by
  simp [insert, get?, member?_putMember_of_ne h]

end Hops

/-- A statement that is being built, with its joins. -/
structure Scope where
  query : Query
  hops : Hops := {}

/-! ## Paths -/

/-- The path that a key denotes: its segments between dots, without blanks around them. -/
def fieldPath (key : String) : List String := (Text.split '.' key).map Text.trim

end JsonSql
