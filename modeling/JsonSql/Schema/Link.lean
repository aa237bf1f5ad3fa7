import JsonSql.Schema.Basic
import JsonSql.Text.Blank

set_option autoImplicit false

/-!
# Links

How a segment of a path leads from one collection to another: not at all, along a foreign key, or
back along one, with polymorphic keys apart.  A segment may name the target of a polymorphic key
(`field:collection`) or follow an undeclared key back (`$FOLLOW(collection, field)`).
-/

namespace JsonSql

/-- How a segment leads on from its collection. -/
inductive Link where
  /-- a field that leads nowhere -/
  | none
  /-- the field refers to one row of the related collection -/
  | manyToOne (relation : Relation)
  /-- the field lists the rows that refer back to this one -/
  | oneToMany (relation : Relation)
  /-- the field refers to one row of the collection that its scope names -/
  | manyToAny (relation : Relation) (scope : Option String)
  /-- the field lists the rows whose polymorphic key refers back to this one -/
  | oneToAny (relation : Relation)
  deriving DecidableEq, Repr, Inhabited

namespace Link

/-- A link to any number of rows. -/
def isToMany : Link → Bool
  | oneToMany _ | oneToAny _ => true
  | _ => false

/-- The short name of the kind of a link. -/
def kind : Link → String
  | none => "none"
  | manyToOne _ => "m2o"
  | oneToMany _ => "o2m"
  | manyToAny _ _ => "a2o"
  | oneToAny _ => "o2a"

/-- The relation that a link goes along. -/
def relation? : Link → Option Relation
  | none => Option.none
  | manyToOne r | oneToMany r | manyToAny r _ | oneToAny r => some r

end Link

/-- A segment as a field and a scope, which a colon separates. -/
def splitScope (segment : String) : String × Option String :=
  match Text.splitOnce? ':' segment with
  | some (field, scope) => (field, some scope)
  | none => (segment, none)

/-- The link of a segment that follows an undeclared key back: `$FOLLOW(collection, field)`, or
with the discriminator of a polymorphic key as third argument. -/
def followLink? (collection segment : String) : Option Link := do
  let inner ← (Text.after? "$FOLLOW(" segment).bind (Text.before? ")")
  match (Text.split ',' inner).map Text.trim with
  | [source, field] => some (.oneToMany { collection := source, field, related := some collection })
  | [source, field, discriminator] =>
    some (.oneToAny {
      collection := source, field,
      info := { discriminator := some discriminator, allowed := [collection] } })
  | _ => none

/-- The link along a foreign key of a collection. -/
def forwardLink? (collection field : String) (scope : Option String) (r : Relation) :
    Option Link :=
  if r.collection = collection ∧ r.field = field then
    if r.related.isSome then some (.manyToOne r)
    else if r.info.discriminator.isSome ∧ r.info.allowed ≠ [] then some (.manyToAny r scope)
    else none
  else none

/-- The link back along a foreign key to a collection. -/
def backwardLink? (collection field : String) (r : Relation) : Option Link :=
  if r.info.oneField = some field then
    match r.related with
    | some related => if related = collection then some (.oneToMany r) else none
    | none => if r.info.allowed.contains collection then some (.oneToAny r) else none
  else none

/-- How a segment leads on from a collection: by following an undeclared key, else along the first
foreign key of the field, else back along the first one that the field stands for. -/
def link (relations : List Relation) (collection segment : String) : Link :=
  let (field, scope) := splitScope segment
  (followLink? collection segment <|>
    relations.findSome? (forwardLink? collection field scope) <|>
    relations.findSome? (backwardLink? collection field)).getD .none

end JsonSql
