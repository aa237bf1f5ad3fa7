import JsonSql.Json.Reader
import JsonSql.Schema.Validity

set_option autoImplicit false

/-!
# Schemas in JSON

A schema is an object of collections and relations.  A record is an object, in which unknown
members do not count and a known one must not be repeated, or an array of its members in order.  The
unknown members of a text are passed over, except in a collection, whose members are all read.
Writing a schema gives every member.
-/

namespace JsonSql

/-! ## Records -/

/-- The members of a record by name. -/
abbrev Members := List (String × Json)

/-- The members with known names, none of them repeated. -/
def knownMembers? (names : List String) (members : Members) : Option Members :=
  let known := members.filter fun (key, _) => names.contains key
  if repeatsKey known then none else some known

/-- The members of a record that is an object or an array of its members in order. -/
def recordMembers? (names : List String) : Json → Option Members
  | .object members => knownMembers? names members
  | .array items => if items.length ≤ names.length then some (names.zip items) else none
  | _ => none

/-- A string. -/
def Json.string? : Json → Option String
  | .string s => some s
  | _ => none

/-- A string or nothing. -/
def Json.optionalString? : Json → Option (Option String)
  | .null => some none
  | .string s => some (some s)
  | _ => none

/-- A list of what a decoder gives. -/
def Json.list? {α : Type} (decode : Json → Option α) : Json → Option (List α)
  | .array items => items.mapM decode
  | _ => none

/-- A member that has to be there. -/
def required? {α : Type} (name : String) (decode : Json → Option α) (members : Members) :
    Option α :=
  (member? name members).bind decode

/-- A member that may be missing. -/
def optional? {α : Type} (name : String) (absent : α) (decode : Json → Option α)
    (members : Members) : Option α :=
  match member? name members with
  | none => some absent
  | some value => decode value

/-! ## Shapes -/

/-- The names of the members of a field. -/
def Field.memberNames : List String := ["field", "type", "special", "default_value"]

/-- The names of the members of the other side of a relation. -/
def RelationMeta.memberNames : List String :=
  ["one_field", "one_collection_field", "one_allowed_collections", "junction_field"]

/-- The shape of a collection. -/
def Collection.shape : Shape := .record false [("fields", .list (.ofNames Field.memberNames))]

/-- The shape of a relation. -/
def Relation.shape : Shape :=
  .record true [("collection", .whole), ("field", .whole), ("related_collection", .whole),
    ("meta", .ofNames RelationMeta.memberNames)]

/-- The shape of a schema. -/
def Schema.shape : Shape :=
  .record true [("collections", .list Collection.shape), ("relations", .list Relation.shape)]

/-! ## Reading -/

/-- A default value; null stands for none. -/
def Json.defaultValue? : Json → Option (Option Json)
  | .null => some none
  | value => some (some value.merged)

/-- A field. -/
def Field.ofJson? (json : Json) : Option Field := do
  let members ← recordMembers? Field.memberNames json
  return {
    name := ← required? "field" Json.string? members
    type := .ofName (← required? "type" Json.string? members)
    special := ← optional? "special" [] (Json.list? Json.string?) members
    defaultValue := ← optional? "default_value" none Json.defaultValue? members }

/-- A collection, which has to be an object. -/
def Collection.ofJson? : Json → Option Collection
  | .object members => do
    let members ← knownMembers? ["fields", "collection", "primary", "accountability"] members
    return {
      info := {
        name := ← required? "collection" Json.string? members
        primary := ← required? "primary" Json.string? members
        accountability := ← optional? "accountability" none Json.optionalString? members }
      fields := ← optional? "fields" [] (Json.list? Field.ofJson?) members }
  | _ => none

/-- The other side of a relation. -/
def RelationMeta.ofJson? (json : Json) : Option RelationMeta := do
  let members ← recordMembers? RelationMeta.memberNames json
  return {
    oneField := ← optional? "one_field" none Json.optionalString? members
    discriminator := ← optional? "one_collection_field" none Json.optionalString? members
    allowed := ← optional? "one_allowed_collections" [] (Json.list? Json.string?) members
    junctionField := ← optional? "junction_field" none Json.optionalString? members }

/-- A relation. -/
def Relation.ofJson? (json : Json) : Option Relation := do
  let members ← recordMembers? ["collection", "field", "related_collection", "meta"] json
  return {
    collection := ← required? "collection" Json.string? members
    field := ← required? "field" Json.string? members
    related := ← optional? "related_collection" none Json.optionalString? members
    info := ← optional? "meta" {} RelationMeta.ofJson? members }

namespace Schema

/-- A schema, whether or not it fits together. -/
def ofJson? (json : Json) : Option Schema := do
  let members ← recordMembers? ["collections", "relations"] json
  return {
    collections := ← optional? "collections" [] (Json.list? Collection.ofJson?) members
    relations := ← optional? "relations" [] (Json.list? Relation.ofJson?) members }

/-- The schema of a JSON text, whether or not it fits together. -/
def parse (text : String) : Except SchemaError Schema :=
  match (Json.parseAs? shape text).bind ofJson? with
  | some s => .ok s
  | none => .error .malformed

/-- The schema of a JSON text, if it fits together. -/
def load (text : String) : Except SchemaError Schema := do
  let s ← parse text
  let _ ← s.validate
  return s

end Schema

/-! ## Writing -/

/-- A text or null. -/
def Json.ofOption : Option String → Json
  | none => .null
  | some s => .string s

/-- A list of texts. -/
def Json.ofStrings (strings : List String) : Json := .array (strings.map .string)

/-- A field as JSON. -/
def Field.toJson (f : Field) : Json :=
  .object [("field", .string f.name), ("type", .string f.type.name),
    ("special", .ofStrings f.special), ("default_value", f.defaultValue.getD .null)]

/-- A collection as JSON. -/
def Collection.toJson (c : Collection) : Json :=
  .object [("collection", .string c.info.name), ("primary", .string c.info.primary),
    ("accountability", .ofOption c.info.accountability),
    ("fields", .array (c.fields.map Field.toJson))]

/-- The other side of a relation as JSON. -/
def RelationMeta.toJson (m : RelationMeta) : Json :=
  .object [("one_field", .ofOption m.oneField), ("one_collection_field", .ofOption m.discriminator),
    ("one_allowed_collections", .ofStrings m.allowed),
    ("junction_field", .ofOption m.junctionField)]

/-- A relation as JSON. -/
def Relation.toJson (r : Relation) : Json :=
  .object [("collection", .string r.collection), ("field", .string r.field),
    ("related_collection", .ofOption r.related), ("meta", r.info.toJson)]

/-- A schema as JSON. -/
def Schema.toJson (s : Schema) : Json :=
  .object [("collections", .array (s.collections.map Collection.toJson)),
    ("relations", .array (s.relations.map Relation.toJson))]

end JsonSql
