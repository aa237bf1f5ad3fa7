import JsonSql.Request.Aggregation
import JsonSql.Request.Operator
import JsonSql.Schema.Basic
import JsonSql.Sql.Dialect

set_option autoImplicit false

/-!
# Failures of requests

Why a request cannot be answered by a statement, by cause, and what is said of each cause.
-/

namespace JsonSql

open JsonSql.Sql

/-- What is wrong with a filter. -/
inductive FilterFault where
  /-- a text that should hold a filter is not JSON -/
  | notJson
  /-- a text that should hold a filter holds a text -/
  | textInText
  /-- a value of another kind stands for a filter -/
  | notAnObject (got : String)
  /-- a key of a group does not hold a list -/
  | notAList (key : String)
  /-- a quantifier stands where a field should -/
  | looseQuantifier (key : String)
  /-- an operator stands where a field should -/
  | looseOperator (operator : Operator)
  /-- operators stand beside fields -/
  | mixedKeys
  /-- a quantifier stands on what is no list of related rows -/
  | notToMany (path : String)
  /-- rows are asked for along a link that leads to no list of them -/
  | notQuantifiable (kind : String)
  deriving DecidableEq, Repr, Inhabited

/-- What is wrong with a request apart from its filter. -/
inductive QueryFault where
  | notAnObject
  | unknownParameter (name : String)
  /-- an entry of a list of fields is not a text -/
  | notAField (name got : String)
  | notAFieldList (name got : String)
  | notAnAggregate
  | unknownAggregation (key : String)
  | notAText (name got : String)
  | notAnInteger (name got : String)
  | negative (name : String) (n : Int)
  /-- a sort entry names no field -/
  | emptySortKey (entry : String)
  /-- a path has no segment -/
  | emptyPath
  /-- no join leads to the parent of a field -/
  | unreachable (path parent : String)
  /-- a field has no column of its own -/
  | noColumn (path : String)
  /-- a list of related rows is compared with a value -/
  | comparesRows (field : String)
  | noRelatedCollection (collection field : String)
  | noDiscriminator (collection field : String)
  | scopeNotAllowed (scope collection field : String)
  | notRelational (segment collection : String)
  /-- an aggregation other than a count is asked for whole rows -/
  | needsField (aggregation : Aggregation)
  deriving DecidableEq, Repr, Inhabited

/-- What is wrong with a function of a field. -/
inductive FunctionFault where
  | unknown
  | needsDate
  | notAvailable (type : FieldType)
  | needsRows
  deriving DecidableEq, Repr, Inhabited

/-- What a dialect may lack. -/
inductive Feature where
  | operator (operator : Operator)
  | jsonLength
  deriving DecidableEq, Repr, Inhabited

/-- Why a request cannot be answered. -/
inductive QueryError where
  /-- the target of a polymorphic key is not named -/
  | missingScope (collection field : String)
  | operatorNotAllowed (path : String) (type : FieldType) (operator : Operator)
  | concealed (path : String) (operator : Operator)
  | unknownOperator (key : String)
  | filter (fault : FilterFault)
  | query (fault : QueryFault)
  | unknownCollection (name : String)
  | unknownField (collection field : String)
  | function (name path : String) (fault : FunctionFault)
  | unsupported (feature : Feature) (dialect : Dialect)
  | schema (error : SchemaError)
  deriving DecidableEq, Repr, Inhabited

/-! ## Messages -/

/-- A text in double quotes. -/
def quoted (s : String) : String := "\"" ++ s ++ "\""

/-- What is said of a faulty filter. -/
def FilterFault.message : FilterFault → String
  | notJson => "filter is not valid JSON"
  | textInText => "filter must be an object"
  | notAnObject got => "filter must be an object, got " ++ got
  | notAList key => quoted key ++ " expects an array of filters"
  | looseQuantifier key => quoted key ++ " must follow a relational field"
  | looseOperator operator => "operator " ++ quoted operator.key ++ " must follow a field"
  | mixedKeys => "operators and nested fields cannot be mixed in one object"
  | notToMany path => quoted path ++ " must follow a to-many relation"
  | notQuantifiable kind => "_some/_none need a to-many relation, got " ++ kind

/-- What is said of a faulty request. -/
def QueryFault.message : QueryFault → String
  | notAnObject => "query must be an object"
  | unknownParameter name => "unknown query parameter " ++ quoted name
  | notAField name got => quoted name ++ " entries must be strings, got " ++ got
  | notAFieldList name got => quoted name ++ " must be a list of fields, got " ++ got
  | notAnAggregate => "\"aggregate\" must map functions to fields"
  | unknownAggregation key => "unknown aggregate function " ++ quoted key
  | notAText name got => quoted name ++ " must be a string, got " ++ got
  | notAnInteger name got => quoted name ++ " must be an integer, got " ++ got
  | negative name n => quoted name ++ " must not be negative, got " ++ toString n
  | emptySortKey entry => "invalid sort key " ++ quoted entry
  | emptyPath => "empty field path"
  | unreachable path parent =>
    quoted path ++ " cannot be reached: " ++ quoted parent ++ " is not a joinable relation here"
  | noColumn path =>
    quoted path ++
      " is a relational alias without a column; filter on its fields or use _some/_none"
  | comparesRows field =>
    quoted field ++ " is a to-many relation: filter on its fields or use _some/_none"
  | noRelatedCollection collection field =>
    "relation " ++ quoted (collection ++ "." ++ field) ++ " has no related collection"
  | noDiscriminator collection field =>
    "polymorphic relation " ++ quoted (collection ++ "." ++ field) ++ " has no collection field"
  | scopeNotAllowed scope collection field =>
    quoted scope ++ " is not an allowed collection for " ++ quoted (collection ++ "." ++ field)
  | notRelational segment collection =>
    quoted segment ++ " is not a relational field of " ++ quoted collection
  | needsField aggregation => quoted aggregation.key ++ " needs a field, not \"*\""

/-- What is said of a faulty function. -/
def FunctionFault.message : FunctionFault → String
  | unknown => "unknown function"
  | needsDate => "requires a date or time field"
  | notAvailable type => "not available for " ++ type.name ++ " fields"
  | needsRows => "requires a JSON or to-many field"

/-- The name of a feature. -/
def Feature.name : Feature → String
  | operator op => op.key
  | jsonLength => "count() on JSON fields"

/-- What is said of a request that cannot be answered. -/
def QueryError.message : QueryError → String
  | missingScope collection field =>
    "Missing scope for polymorphic field " ++ quoted field ++ " on " ++ quoted collection ++
      ": use " ++ quoted (field ++ ":<collection>")
  | operatorNotAllowed path type operator =>
    "Operator " ++ quoted operator.key ++ " is not allowed for field " ++ quoted path ++
      " of type " ++ quoted type.name
  | concealed path operator =>
    "Operator " ++ quoted operator.key ++ " is not allowed for concealed field " ++ quoted path
  | unknownOperator key => "Unknown filter operator " ++ quoted key
  | filter fault => "Invalid filter: " ++ fault.message
  | query fault => "Invalid query: " ++ fault.message
  | unknownCollection name => "Collection " ++ quoted name ++ " does not exist"
  | unknownField collection field =>
    "Field " ++ quoted field ++ " does not exist on collection " ++ quoted collection
  | function name path fault =>
    "Invalid function " ++ quoted name ++ " on field " ++ quoted path ++ ": " ++ fault.message
  | unsupported feature dialect =>
    quoted feature.name ++ " is not supported by the " ++ dialect.name ++ " dialect"
  | schema error => "Schema error: " ++ error.message

end JsonSql
