import JsonSql.Proofs.Semantics
import JsonSql.Proofs.Segmentwise

set_option autoImplicit false

/-!
# What filters mean

The truth value of a filter on a row of its collection, said without statements: a key that refers
to a row reads that row, or a row of nulls where there is none, and a key of rows that refer back
asks whether some of them, or none, meets the filter below.  A part that restricts nothing has no
truth value.  Filters of this kind are the plain ones (`Filter.isPlain`); keys are one segment each,
as they are in an unfolded filter.
-/

namespace JsonSql

open JsonSql.Sql

/-! ## Comparisons -/

namespace Sql.Engine

variable (E : Engine)

/-- A text as a value. -/
def text (s : String) : E.Value := E.literal (.string s)

/-- A value in lower case, if case does not count. -/
def folded (ignoreCase : Bool) (v : E.Value) : E.Value :=
  if ignoreCase then E.call "LOWER" [v] else v

/-- Whether the geometry of a value meets that of a GeoJSON text, or their bounding boxes meet; a
dialect without geometries does not know. -/
def geometriesMeet (d : Dialect) (boxes : Bool) (v : E.Value) (geojson : String) : Truth :=
  let shape := E.call "ST_GeomFromGeoJSON" [E.text geojson]
  let envelope (v : E.Value) := E.call "ST_Envelope" [v]
  match d with
  | .postgres | .duckdb =>
    E.truth (if boxes then E.call "ST_Intersects" [envelope v, envelope shape]
      else E.call "ST_Intersects" [v, shape])
  | .mysql => E.truth (E.call (if boxes then "MBRIntersects" else "ST_Intersects") [v, shape])
  | .tsql | .sqlite => .unknown

end Sql.Engine

/-- The text that a literal is looked for by, in lower case if case does not count. -/
def Sql.Literal.soughtText (ignoreCase : Bool) (x : Literal) : String :=
  if ignoreCase then Text.toLower x.patternText else x.patternText

/-- The truth value of an operator between a value and literals, if those are what it takes.  An
operator that takes none turns into its negation unless it is kept. -/
def Operator.truth? (E : Engine) (d : Dialect) (op : Operator) (v : E.Value)
    (literals : List Literal) (kept : Bool) : Option Truth :=
  match op with
  | equal false negated =>
    literals.head?.map fun x => (E.same v (E.literal x)).negatedIf negated
  | equal true negated =>
    literals.head?.map fun x =>
      (E.same (E.folded true v) (E.text (x.soughtText true))).negatedIf negated
  | less => literals.head?.map fun x => E.compare E.less v (E.literal x)
  | lessOrEqual => literals.head?.map fun x => E.compare E.atMost v (E.literal x)
  | greater => literals.head?.map fun x => E.compare E.less (E.literal x) v
  | greaterOrEqual => literals.head?.map fun x => E.compare E.atMost (E.literal x) v
  | oneOf negated => some ((E.isAmong v (literals.map E.literal)).negatedIf negated)
  | null negated => some (.ofBool (v.isNone == (kept != negated)))
  | empty negated => some ((E.same v (E.text "")).negatedIf (negated == kept))
  | holds place ignoreCase negated =>
    literals.head?.map fun x =>
      (E.compare E.like (E.folded ignoreCase v)
        (E.text (place.pattern (x.soughtText ignoreCase)))).negatedIf negated
  | between negated =>
    match literals with
    | [low, high] =>
      some (((E.compare E.atMost (E.literal low) v).and
        (E.compare E.atMost v (E.literal high))).negatedIf negated)
    | _ => none
  | intersects boxes negated =>
    match literals with
    | .string geojson :: _ => some ((E.geometriesMeet d boxes v geojson).negatedIf negated)
    | _ => none

namespace Comparison

/-- The literals of the value of a comparison. -/
def literals (d : Dialect) (kind : ValueKind) (comparison : Comparison) : List Literal :=
  match comparison.value with
  | some value => Literal.list d kind comparison.operator.arity value
  | none => []

/-- The truth value of a comparison, unless it needs a value and has none. -/
def truth? (E : Engine) (d : Dialect) (kind : ValueKind) (v : E.Value)
    (comparison : Comparison) : Option Truth :=
  if comparison.operator.arity ≠ .none ∧ comparison.value.isNone then none
  else comparison.operator.truth? E d v (comparison.literals d kind)
    (leavesOperator comparison.value)

end Comparison

/-! ## Related rows -/

namespace Schema

/-- The primary key of a collection. -/
def primaryOf (s : Schema) (collection : String) : String :=
  ((s.collection? collection).map fun c => c.info.primary).getD ""

/-- What the values of a field are. -/
def kindOf (s : Schema) (collection field : String) : ValueKind :=
  ((s.field? collection field).map fun f => f.type.valueKind).getD .plain

/-- Primary keys are not null, and no two rows of a collection share one. -/
def HasKeys (s : Schema) {E : Engine} (db : Database E) : Prop :=
  ∀ collection c, s.collection? collection = some c →
    (∀ row ∈ db collection, (row c.info.primary).isSome) ∧
      (db collection).Pairwise fun row other =>
        E.same (row c.info.primary) (other c.info.primary) ≠ .yes

end Schema

/-- How the key of a plain filter leads on. -/
inductive PlainLink where
  /-- to the row of a collection that a field refers to -/
  | one (relation : Relation) (target : String)
  /-- to the rows that refer back -/
  | many (relation : Relation)

/-- How a key leads on from a collection: at the root, to rows that refer back if the key as it is
written stands for such; otherwise, without blanks around it, to the row that it refers to. -/
def plainLink? (relations : List Relation) (collection : String) (root : Bool) (key : String) :
    Option PlainLink :=
  match root, link relations collection key with
  | true, .oneToMany r => some (.many r)
  | true, .oneToAny _ => none
  | _, _ =>
    match link relations collection (Text.trim key) with
    | .manyToOne r => r.related.map (.one r)
    | _ => none

section

variable {E : Engine} (s : Schema) (db : Database E)

/-- The row that another one refers to, or a row of nulls. -/
def referencedRow (r : Relation) (target : String) (row : Row E) : Row E :=
  ((db target).find? fun other => E.same (row r.field) (other (s.primaryOf target)) = .yes).getD
    (nullRow E)

/-- Some of the rows that refer back to a row is as asked. -/
def someRefersBack (collection : String) (r : Relation) (row : Row E) (asked : Row E → Bool) :
    Bool :=
  (db r.collection).any fun other =>
    E.same (row (s.primaryOf collection)) (other r.field) = .yes && asked other

/-- The truth value of a quantifier, by whether there is a row as asked. -/
def Quantifier.truth (found : Bool) : Quantifier → Truth
  | some => .ofBool found
  | none => .ofBool !found

/-! ## Filters -/

variable (d : Dialect)

mutual
/-- The truth value of a filter on a row of a collection, unless it restricts nothing. -/
def Filter.truth? (collection : String) (root : Bool) (row : Row E) : Filter → Option Truth
  | ⟨clauses⟩ => Truth.all? (clauseTruths collection root row clauses)

/-- The truth values of clauses that restrict anything. -/
def clauseTruths (collection : String) (root : Bool) (row : Row E) : List Clause → List Truth
  | [] => []
  | clause :: rest =>
    (clause.truth? collection root row).toList ++ clauseTruths collection root row rest

/-- The truth value of a clause; a group of alternatives of which one is empty restricts nothing. -/
def Clause.truth? (collection : String) (root : Bool) (row : Row E) : Clause → Option Truth
  | .all filters => Truth.all? (filterTruths collection root row filters)
  | .any filters =>
    if holdsAlways filters then none
    else Truth.any? (filterTruths collection root row filters)
  | .field key condition => condition.truth? collection root row key

/-- The truth values of filters that restrict anything. -/
def filterTruths (collection : String) (root : Bool) (row : Row E) : List Filter → List Truth
  | [] => []
  | f :: rest => (f.truth? collection root row).toList ++ filterTruths collection root row rest

/-- The truth value of what is asked of a field. -/
def FieldCondition.truth? (collection : String) (root : Bool) (row : Row E) (key : String) :
    FieldCondition → Option Truth
  | .compare comparisons =>
    let field := Text.trim key
    Truth.all? (comparisons.filterMap
      (Comparison.truth? E d (s.kindOf collection field) (row field)))
  | .nested f =>
    match plainLink? s.relations collection root key with
    | some (.one r target) => f.truth? target false (referencedRow s db r target row)
    | some (.many r) =>
      some (Quantifier.some.truth (someRefersBack s db collection r row fun other =>
        (f.truth? r.collection true other).getD .yes = .yes))
    | none => none
  | .quantified quantifier f =>
    match plainLink? s.relations collection root key with
    | some (.many r) =>
      some (quantifier.truth (someRefersBack s db collection r row fun other =>
        (f.truth? r.collection true other).getD .yes = .yes))
    | _ => none
end

/-- Whether a row of a collection meets a filter; every row meets one that restricts nothing. -/
def Filter.holds (collection : String) (row : Row E) (f : Filter) : Bool :=
  (f.truth? s db d collection true row).getD .yes = .yes

end

/-! ## Plain filters -/

mutual
/-- A filter that compares columns, whose keys lead to the row that they refer to or, at the root
of the filter or of one about rows that refer back, to rows that refer back.  A group that
restricts nothing may hold anything. -/
def Filter.isPlain (relations : List Relation) (collection : String) (root : Bool) : Filter → Bool
  | ⟨clauses⟩ => arePlainClauses relations collection root clauses

/-- Clauses that are plain. -/
def arePlainClauses (relations : List Relation) (collection : String) (root : Bool) :
    List Clause → Bool
  | [] => true
  | clause :: rest =>
    clause.isPlain relations collection root && arePlainClauses relations collection root rest

/-- A clause that is plain. -/
def Clause.isPlain (relations : List Relation) (collection : String) (root : Bool) :
    Clause → Bool
  | .all filters => arePlain relations collection root filters
  | .any filters => holdsAlways filters || arePlain relations collection root filters
  | .field key condition => condition.isPlain relations collection root key

/-- Filters that are plain. -/
def arePlain (relations : List Relation) (collection : String) (root : Bool) :
    List Filter → Bool
  | [] => true
  | f :: rest => f.isPlain relations collection root && arePlain relations collection root rest

/-- What is asked of a field is plain: no function of the field is compared, and its key leads on
where it has to. -/
def FieldCondition.isPlain (relations : List Relation) (collection : String) (root : Bool)
    (key : String) : FieldCondition → Bool
  | .compare _ => (splitFunction (Text.trim key)).1.isNone
  | .nested f =>
    match plainLink? relations collection root key with
    | some (.one _ target) => f.isPlain relations target false
    | some (.many r) => f.isPlain relations r.collection true
    | none => false
  | .quantified _ f =>
    match plainLink? relations collection root key with
    | some (.many r) => f.isPlain relations r.collection true
    | _ => false
end

end JsonSql
