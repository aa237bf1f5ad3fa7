import JsonSql.Statement.Context

set_option autoImplicit false

/-!
# Joins along paths

The segments of a path but the last lead from collection to collection.  Each is joined once, under
the path that leads to it.  At the root of a statement, rows that refer back to it are not joined
but left to existential conditions, and joins of polymorphic keys lead no further; inside an
existential condition, or below a join, every link is joined.
-/

namespace JsonSql

open JsonSql.Sql

/-- Where a path has got to: a collection, and the table or alias that stands for it. -/
structure Place where
  collection : String
  table : String
  isRoot : Bool
  deriving DecidableEq, Repr, Inhabited

/-- The root of a statement. -/
def Place.root (collection : String) : Place := ⟨collection, collection, true⟩

/-- The place that a join leads to. -/
def Hop.place (hop : Hop) : Place := ⟨hop.collection, hop.name, false⟩

/-- The discriminator of a polymorphic key. -/
def discriminator (r : Relation) (collection field : String) : Compile String :=
  match r.info.discriminator with
  | some column => pure column
  | none => throw (.query (.noDiscriminator collection field))

/-- The rows of a polymorphic key, in a table, that refer to a key of a collection. -/
def refersTo (table discriminator field collection : String) (key : Expr) : Expr :=
  .both (.equals (.of table discriminator) (.string collection))
    (.equals (.of table field) (.cast key .text))

namespace Context

/-- The collection that a link leads to from a place, and the condition under which a row of it, in
a table of its own, is joined. -/
def joinTarget (c : Context) (place : Place) (segment table : String) :
    Link → Compile (String × Expr)
  | .manyToOne r => do
    match r.related with
    | none => throw (.query (.noRelatedCollection r.collection r.field))
    | some target =>
      let primary ← c.primary target
      return (target, .equals (.of place.table r.field) (.of table primary))
  | .manyToAny r scope => do
    let field := (splitScope segment).1
    match scope with
    | none => throw (.missingScope place.collection field)
    | some target =>
      if r.info.allowed.contains target then
        let column ← discriminator r place.collection field
        let primary ← c.primary target
        return (target, refersTo place.table column r.field target (.of table primary))
      else throw (.query (.scopeNotAllowed target place.collection field))
  | .oneToMany r => do
    let primary ← c.primary place.collection
    return (r.collection, .equals (.of place.table primary) (.of table r.field))
  | .oneToAny r => do
    let column ← discriminator r r.collection r.field
    let primary ← c.primary place.collection
    return (r.collection,
      refersTo table column r.field place.collection (.of place.table primary))
  | .none => throw (.query (.notRelational segment place.collection))

/-- Joins what a link leads to from a place, under an alias of its own. -/
def join (c : Context) (scope : Scope) (path : List String) (place : Place) (segment : String)
    (link : Link) : Compile (Scope × Hop) := do
  let name ← c.freshAlias
  let (target, condition) ← c.joinTarget place segment name link
  let hop : Hop := ⟨name, target⟩
  return ({
    query := scope.query.addJoin ⟨target, some name⟩ condition
    hops := scope.hops.insert path hop }, hop)

/-- Whether a link is joined at all. -/
def isJoined (inner : Bool) (place : Place) : Link → Bool
  | .none => false
  | .oneToMany _ => inner || !place.isRoot
  | _ => true

/-- Whether a path leads on over the join of a link. -/
def leadsOn (inner : Bool) (place : Place) : Link → Bool
  | .manyToOne _ => true
  | _ => inner || !place.isRoot

/-- Joins along the segments of a path but the last, from a place that the segments before it have
led to.  A statement is inner if it stands in an existential condition.  The result tells whether a
link to several rows was joined. -/
def joinFrom (c : Context) (inner : Bool) (place : Place) (before : List String) (scope : Scope) :
    List String → Compile (Scope × Bool)
  | segment :: next :: rest => do
    let link := c.link place.collection segment
    let path := before ++ [segment]
    match link, scope.hops.get? path with
    | .none, _ => return (scope, false)
    | _, some hop =>
      if leadsOn inner place link then c.joinFrom inner hop.place path scope (next :: rest)
      else return (scope, false)
    | _, none =>
      if isJoined inner place link then
        let (scope, hop) ← c.join scope path place segment link
        if leadsOn inner place link then
          let (scope, several) ← c.joinFrom inner hop.place path scope (next :: rest)
          return (scope, link.isToMany || several)
        else return (scope, link.isToMany)
      else return (scope, false)
  | _ => return (scope, false)

/-- Joins along a path from a collection. -/
def joinPath (c : Context) (inner : Bool) (collection : String) (scope : Scope)
    (path : List String) : Compile (Scope × Bool) :=
  c.joinFrom inner (.root collection) [] scope path

end Context

end JsonSql
