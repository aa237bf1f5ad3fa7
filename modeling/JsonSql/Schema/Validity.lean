import JsonSql.Schema.Basic

set_option autoImplicit false

/-!
# Validity of schemas

A schema fits together if no collection is declared twice, every primary key is a field of its
collection, and every relation leads from a field that exists to collections that exist.  The
first fault in the order of declaration is reported.
-/

namespace JsonSql

/-- Counts of what a schema holds. -/
structure SchemaSummary where
  collections : Nat
  fields : Nat
  relations : Nat
  deriving DecidableEq, Repr, Inhabited

/-- The collections that a relation refers to. -/
def Relation.targets (r : Relation) : List String :=
  match r.related with
  | some related => [related]
  | none => r.info.allowed

namespace Schema

/-- Checks collections against those declared before them. -/
def checkCollections : (seen : List String) → List Collection → Except SchemaError Unit
  | _, [] => .ok ()
  | seen, c :: rest =>
    if seen.contains c.info.name then .error (.repeatedCollection c.info.name)
    else if (c.field? c.info.primary).isNone then
      .error (.missingPrimary c.info.name c.info.primary)
    else checkCollections (c.info.name :: seen) rest

/-- Checks the two ends of a relation. -/
def checkRelation (s : Schema) (r : Relation) : Except SchemaError Unit :=
  match s.collection? r.collection with
  | none => .error (.unknownSource r.collection)
  | some source =>
    if (source.field? r.field).isNone then .error (.missingField r.collection r.field)
    else if r.targets.isEmpty then .error (.missingTarget r.collection r.field)
    else match r.targets.find? fun target => (s.collection? target).isNone with
      | some target => .error (.unknownTarget r.collection r.field target)
      | none => .ok ()

/-- The counts of what a schema holds. -/
def summary (s : Schema) : SchemaSummary where
  collections := s.collections.length
  fields := (s.collections.flatMap Collection.fields).length
  relations := s.relations.length

/-- Checks that a schema fits together. -/
def validate (s : Schema) : Except SchemaError SchemaSummary := do
  checkCollections [] s.collections
  s.relations.forM s.checkRelation
  return s.summary

end Schema

end JsonSql
