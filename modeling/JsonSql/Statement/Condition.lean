import JsonSql.Request.Filter
import JsonSql.Statement.Predicate
import JsonSql.Statement.Value

set_option autoImplicit false

/-!
# Conditions of filters

A filter becomes joins and a condition in two passes.  The join pass joins every path of the filter,
the predicate pass builds the condition on those joins.  Both read the dotted key of a field, each
for itself.  A link to several rows at the root of a statement becomes an existential condition
instead, which the rest of a dotted key is the filter of: the key of the row is, or is not, among
the keys that the related rows refer to.  A group of alternatives of which one is empty restricts
nothing and is left out.
-/

namespace JsonSql

open JsonSql.Sql

/-- All of the parts hold; there is nothing to say without parts. -/
def conjunction? : List Expr → Option Expr
  | [] => none
  | part :: rest => some (rest.foldl (fun all part => .both all.guarded part.guarded) part)

/-- One of the parts holds; there is nothing to say without parts. -/
def disjunction? : List Expr → Option Expr
  | [] => none
  | part :: rest => some (rest.foldl .either part)

/-- A group of alternatives of which one has no clauses. -/
def holdsAlways (filters : List Filter) : Bool := filters.any Filter.isEmpty

/-- The first segment of a key, and what stands after its dot. -/
def splitRoot (key : String) : String × Option String :=
  match Text.splitOnce? '.' key with
  | some (root, rest) => (Text.trim root, some rest)
  | none => (key, none)

namespace Context

/-- Whether a key starts an existential condition: at the root, along a link to several rows. -/
def startsExistential (c : Context) (collection : String) (parents : List String)
    (key : String) : Bool :=
  parents.isEmpty && (c.link collection key).isToMany

/-! ## The join pass -/

mutual
/-- Joins along every path of a filter under a path of parents.  The result tells whether a link to
several rows was joined. -/
def joinPass (c : Context) (inner : Bool) (collection : String) (parents : List String)
    (scope : Scope) : Filter → Compile (Scope × Bool)
  | ⟨clauses⟩ => c.joinPassClauses inner collection parents scope clauses

/-- Joins along every path of clauses. -/
def joinPassClauses (c : Context) (inner : Bool) (collection : String) (parents : List String)
    (scope : Scope) : List Clause → Compile (Scope × Bool)
  | [] => return (scope, false)
  | clause :: rest => do
    let (scope, several) ← c.joinPassClause inner collection parents scope clause
    let (scope, more) ← c.joinPassClauses inner collection parents scope rest
    return (scope, several || more)

/-- Joins along every path of a clause. -/
def joinPassClause (c : Context) (inner : Bool) (collection : String) (parents : List String)
    (scope : Scope) : Clause → Compile (Scope × Bool)
  | .all filters => c.joinPassGroup inner collection parents scope filters
  | .any filters =>
    if holdsAlways filters then return (scope, false)
    else c.joinPassGroup inner collection parents scope filters
  | .field key condition =>
    if c.startsExistential collection parents (splitRoot key).1 then return (scope, false)
    else c.joinPassField inner collection (parents ++ fieldPath key) scope condition

/-- Joins along every path of the filters of a group. -/
def joinPassGroup (c : Context) (inner : Bool) (collection : String) (parents : List String)
    (scope : Scope) : List Filter → Compile (Scope × Bool)
  | [] => return (scope, false)
  | f :: rest => do
    let (scope, several) ← c.joinPass inner collection parents scope f
    let (scope, more) ← c.joinPassGroup inner collection parents scope rest
    return (scope, several || more)

/-- Joins along the path of a field and what is asked of it. -/
def joinPassField (c : Context) (inner : Bool) (collection : String) (path : List String)
    (scope : Scope) : FieldCondition → Compile (Scope × Bool)
  | .nested f => c.joinPass inner collection path scope f
  | .compare _ | .quantified _ _ => c.joinPath inner collection scope path
end

/-! ## Comparisons -/

/-- Whether a column admits an operator. -/
def checkOperator (column : Column) (operator : Operator) : Except QueryError Unit :=
  if column.concealed && !operator.isBlind then .error (.concealed column.path operator)
  else if operator.isAllowedFor column.type then .ok ()
  else .error (.operatorNotAllowed column.path column.type operator)

/-- The predicate of a comparison with a column.  A comparison that needs a value but has none is
left out. -/
def compare? (c : Context) (column : Column) (comparison : Comparison) :
    Except QueryError (Option Expr) := do
  let operator := comparison.operator
  checkOperator column operator
  if operator.arity ≠ .none ∧ comparison.value.isNone then return none
  let values := match comparison.value with
    | some value => Literal.list c.dialect column.valueKind operator.arity value
    | none => []
  operator.predicate? c.dialect column.expr values (leavesOperator comparison.value)

/-- The comparisons of a column, all of which hold. -/
def compareAll? (c : Context) (column : Column) (comparisons : List Comparison) :
    Except QueryError (Option Expr) := do
  let parts ← comparisons.mapM (c.compare? column)
  return conjunction? parts.reduceOption

/-! ## Existential conditions -/

/-- A statement whose joins are made, with a condition that is built on them. -/
def restricted (joined : Compile (Scope × Bool)) (condition : Hops → Compile (Option Expr)) :
    Compile (Scope × Bool) := do
  let (scope, several) ← joined
  match ← condition scope.hops with
  | some e => return ({ scope with query := scope.query.addCondition e }, several)
  | none => return (scope, several)

/-- The keys that the related rows refer to, with the collection of those rows. -/
def relatedKeys (collection : String) : Link → Compile (Relation × Query × Bool)
  | .oneToMany r => return (r, keys r, false)
  | .oneToAny r => do
    match r.info.discriminator with
    | none => throw (.query (.noDiscriminator r.collection r.field))
    | some column =>
      let ofCollection := Expr.equals (.of r.collection column) (.string collection)
      return (r, (keys r).addCondition ofCollection, true)
  | other => throw (.filter (.notQuantifiable other.kind))
where
  /-- The keys that are not null. -/
  keys (r : Relation) : Query :=
    let key := Expr.of r.collection r.field
    { items := [⟨key, none⟩]
      source := some ⟨r.collection, none⟩
      condition := some (.isNull key true) }

/-- The key of a row is, or is not, among the keys that related rows refer to.  `related` restricts
the statement of those keys, which selects from a collection. -/
def amongKeys (c : Context) (collection table : String) (link : Link) (quantifier : Quantifier)
    (related : String → Scope → Compile (Scope × Bool)) : Compile Expr := do
  let (r, keys, polymorphic) ← relatedKeys collection link
  let _ ← c.collection r.collection
  let (scope, _) ← related r.collection { query := keys }
  let primary ← c.primary collection
  let key := Expr.of table primary
  return .inQuery (if polymorphic then .cast key .text else key) scope.query
    (quantifier = .none)

/-- The join that a quantified field starts from, and the link of the field. -/
def quantifiedLink (c : Context) (hops : Hops) (parents : List String) (segment : String) :
    Except QueryError (Hop × Link) :=
  let fault := QueryError.filter (.notToMany (Hops.key (parents ++ [segment])))
  match hops.get? parents with
  | none => .error fault
  | some hop =>
    let link := c.link hop.collection segment
    if link.isToMany then .ok (hop, link) else .error fault

/-! ## The predicate pass -/

/-- The condition of a key, of which the segments are given.  A link to several rows at the root
takes the segments after it into the filter of its own rows.  `rows` builds the condition on such
rows if no segments are left, and `along` builds that of a path which starts at no such link. -/
def keyPredicate? (c : Context) (condition : FieldCondition)
    (rows : String → String → Compile (Option Expr))
    (along : Hops → String → List String → Compile (Option Expr)) :
    List String → Hops → String → List String → Compile (Option Expr)
  | root :: next :: rest, hops, collection, parents =>
    if c.startsExistential collection parents (Text.trim root) then
      let below : Filter := .of (.field (Text.join '.' (next :: rest)) condition)
      some <$> c.amongKeys collection collection (c.link collection (Text.trim root)) .some
        fun related scope => restricted (c.joinPass true related [] scope below)
          fun hops => c.keyPredicate? condition rows along (next :: rest) hops related []
    else along hops collection (parents ++ (root :: next :: rest).map Text.trim)
  | segments, hops, collection, parents =>
    let key := Text.join '.' segments
    if c.startsExistential collection parents key then rows collection key
    else along hops collection (parents ++ segments.map Text.trim)

mutual
/-- The condition of a filter under a path of parents, if it restricts anything. -/
def predicatePass (c : Context) (hops : Hops) (collection : String) (parents : List String) :
    Filter → Compile (Option Expr)
  | ⟨clauses⟩ => conjunction? <$> c.clausePredicates hops collection parents clauses

/-- The conditions of clauses that restrict anything. -/
def clausePredicates (c : Context) (hops : Hops) (collection : String) (parents : List String) :
    List Clause → Compile (List Expr)
  | [] => return []
  | clause :: rest => do
    let part ← c.clausePredicate? hops collection parents clause
    let parts ← c.clausePredicates hops collection parents rest
    return part.toList ++ parts

/-- The condition of a clause. -/
def clausePredicate? (c : Context) (hops : Hops) (collection : String)
    (parents : List String) : Clause → Compile (Option Expr)
  | .all filters => conjunction? <$> c.groupPredicates hops collection parents filters
  | .any filters =>
    if holdsAlways filters then return none
    else disjunction? <$> c.groupPredicates hops collection parents filters
  | .field key condition =>
    c.keyPredicate? condition (fun collection key => c.rowsPredicate? collection key condition)
      (fun hops collection path => c.pathPredicate? hops collection path condition)
      (Text.split '.' key) hops collection parents

/-- The conditions of the filters of a group, each in parentheses. -/
def groupPredicates (c : Context) (hops : Hops) (collection : String) (parents : List String) :
    List Filter → Compile (List Expr)
  | [] => return []
  | f :: rest => do
    let part ← c.predicatePass hops collection parents f
    let parts ← c.groupPredicates hops collection parents rest
    return (part.map Expr.paren).toList ++ parts

/-- The condition on the rows that a link at the root lists. -/
def rowsPredicate? (c : Context) (collection key : String) :
    FieldCondition → Compile (Option Expr)
  | .compare _ => throw (.query (.comparesRows key))
  | .nested f =>
    some <$> c.amongKeys collection collection (c.link collection key) .some
      fun related scope => restricted (c.joinPass true related [] scope f)
        fun hops => c.predicatePass hops related [] f
  | .quantified quantifier f =>
    some <$> c.amongKeys collection collection (c.link collection key) quantifier
      fun related scope => restricted (c.joinPass true related [] scope f)
        fun hops => c.predicatePass hops related [] f

/-- The condition on the field at the end of a path. -/
def pathPredicate? (c : Context) (hops : Hops) (collection : String) (path : List String) :
    FieldCondition → Compile (Option Expr)
  | .compare comparisons => do
    let column ← c.column hops collection path
    c.compareAll? column comparisons
  | .nested f => c.predicatePass hops collection path f
  | .quantified quantifier f =>
    match path.getLast? with
    | none => return none
    | some segment => do
      let (hop, link) ← c.quantifiedLink hops path.dropLast segment
      some <$> c.amongKeys hop.collection hop.name link quantifier
        fun related scope => restricted (c.joinPass true related [] scope f)
          fun hops => c.predicatePass hops related [] f
end

/-- The statement with the joins and the condition of a filter on its collection. -/
def restrict (c : Context) (inner : Bool) (collection : String) (scope : Scope) (f : Filter) :
    Compile (Scope × Bool) :=
  restricted (c.joinPass inner collection [] scope f)
    fun hops => c.predicatePass hops collection [] f

end Context

end JsonSql
