import JsonSql.Schema.Field

set_option autoImplicit false

/-!
# Schemas

Collections with their fields, and the relations between collections.  A relation is a foreign key
from a field of one collection to another collection, or to one of several collections that a
discriminator column names.
-/

namespace JsonSql

/-- What is known of a collection apart from its fields. -/
structure CollectionInfo where
  name : String
  /-- the field that holds the primary key -/
  primary : String
  accountability : Option String := none
  deriving DecidableEq, Repr, Inhabited

/-- A collection with its fields in declared order. -/
structure Collection where
  info : CollectionInfo
  fields : List Field := []
  deriving Repr, Inhabited

/-- The other side of a foreign key. -/
structure RelationMeta where
  /-- the field on the other side that lists the related rows -/
  oneField : Option String := none
  /-- the column that names the collection that a polymorphic key refers to -/
  discriminator : Option String := none
  /-- the collections that a polymorphic key may refer to -/
  allowed : List String := []
  junctionField : Option String := none
  deriving DecidableEq, Repr, Inhabited

/-- A foreign key.  A polymorphic key has no related collection of its own. -/
structure Relation where
  collection : String
  field : String
  related : Option String := none
  info : RelationMeta := {}
  deriving DecidableEq, Repr, Inhabited

/-- Collections and the relations between them. -/
structure Schema where
  collections : List Collection := []
  relations : List Relation := []
  deriving Repr, Inhabited

/-- The field with a name. -/
def Collection.field? (c : Collection) (name : String) : Option Field :=
  c.fields.find? fun f => f.name = name

namespace Schema

/-- The collection with a name. -/
def collection? (s : Schema) (name : String) : Option Collection :=
  s.collections.find? fun c => c.info.name = name

/-- The fields of a collection; a collection that does not exist has none. -/
def fieldsOf (s : Schema) (collection : String) : List Field :=
  ((s.collection? collection).map Collection.fields).getD []

/-- The field of a collection with a name. -/
def field? (s : Schema) (collection name : String) : Option Field :=
  (s.collection? collection).bind fun c => c.field? name

end Schema

/-! ## Failures -/

/-- Why a schema cannot be used. -/
inductive SchemaError where
  /-- a collection is declared twice -/
  | repeatedCollection (name : String)
  /-- the primary key of a collection is none of its fields -/
  | missingPrimary (collection primary : String)
  /-- a relation starts at a collection that does not exist -/
  | unknownSource (collection : String)
  /-- a relation starts at a field that does not exist -/
  | missingField (collection field : String)
  /-- a relation refers to no collection at all -/
  | missingTarget (collection field : String)
  /-- a relation refers to a collection that does not exist -/
  | unknownTarget (collection field target : String)
  /-- the source of the schema could not answer -/
  | provider (reason : String)
  /-- the file of the schema could not be read -/
  | unreadable (reason : String)
  /-- the text of the schema is not JSON of the right shape -/
  | malformed
  deriving DecidableEq, Repr, Inhabited

namespace SchemaError

/-- What is wrong with a schema that does not fit together. -/
def fault? : SchemaError → Option String
  | repeatedCollection name => some ("collection \"" ++ name ++ "\" is declared twice")
  | missingPrimary collection primary =>
    some ("primary key \"" ++ primary ++ "\" is not a field of \"" ++ collection ++ "\"")
  | unknownSource collection =>
    some ("relation on unknown collection \"" ++ collection ++ "\"")
  | missingField collection field =>
    some ("relation field \"" ++ collection ++ "." ++ field ++ "\" does not exist")
  | missingTarget collection field =>
    some ("relation \"" ++ collection ++ "." ++ field ++ "\" has no related collection")
  | unknownTarget collection field target =>
    some ("relation \"" ++ collection ++ "." ++ field ++ "\" points to unknown collection \"" ++
      target ++ "\"")
  | _ => none

/-- The message of a failure. -/
def message (e : SchemaError) : String :=
  match e with
  | provider reason => "Schema provider failed: " ++ reason
  | unreadable reason => "Failed to read schema file: " ++ reason
  | malformed => "Failed to parse schema"
  | other => "Invalid schema: " ++ other.fault?.getD ""

end SchemaError

/-! ## Access to a schema -/

/-- Read access to a schema, one question at a time; each question may fail. -/
structure Provider where
  /-- what is known of a collection, if it exists -/
  collection : String → Except SchemaError (Option CollectionInfo)
  /-- the fields of a collection in declared order -/
  fields : String → Except SchemaError (List Field)
  /-- a field of a collection, if it exists -/
  field : String → String → Except SchemaError (Option Field)
  /-- every relation -/
  relations : Except SchemaError (List Relation)

/-- Access to a schema at hand, which never fails. -/
def Schema.provider (s : Schema) : Provider where
  collection name := .ok ((s.collection? name).map Collection.info)
  fields collection := .ok (s.fieldsOf collection)
  field collection name := .ok (s.field? collection name)
  relations := .ok s.relations

end JsonSql
