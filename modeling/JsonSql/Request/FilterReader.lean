import JsonSql.Json.Printer
import JsonSql.Json.Reader
import JsonSql.Request.Error
import JsonSql.Request.Filter

set_option autoImplicit false

/-!
# Reading filters

A filter in JSON is an object, each key of which is a group or a field, or a text that holds such
an object.  Under a field stands a value that it has to equal, an object of operators, an object of
one quantifier, or again an object of groups and fields.  The first fault in reading order is
reported.
-/

namespace JsonSql

namespace Quantifier

/-- The key of a quantifier. -/
def key : Quantifier → String
  | some => "_some"
  | none => "_none"

/-- The quantifier with a key. -/
def ofKey? (s : String) : Option Quantifier := [some, none].find? fun q => q.key = s

end Quantifier

namespace Filter

/-- Keys that start with an underscore but name no operator. -/
def reservedKeys : List String := ["_and", "_or", "_some", "_none"]

/-- A key that starts with an underscore. -/
def isMarked (key : String) : Bool := (Text.after? "_" key).isSome

/-- A key that stands in the place of an operator. -/
def isOperatorKey (key : String) : Bool := isMarked key && !reservedKeys.contains key

/-- What is wrong with a key in the place of a field, if anything. -/
def keyFault? (key : String) : Option QueryError :=
  if (Quantifier.ofKey? key).isSome then some (.filter (.looseQuantifier key))
  else if isMarked key then
    some (match Operator.ofKey? key with
      | some op => .filter (.looseOperator op)
      | none => .unknownOperator key)
  else none

/-- The value of a comparison: null is none, and nulls in a list do not count. -/
def comparedValue : Json → Option Json
  | .null => none
  | .array items => some (.array (items.filter fun item => !item.isNull))
  | value => some value

/-- A comparison by the operator of a key. -/
def readComparison (key : String) (value : Json) : Except QueryError Comparison :=
  match Operator.ofKey? key with
  | some operator => .ok ⟨operator, comparedValue value⟩
  | none => .error (.unknownOperator key)

/-- An object that holds operators only. -/
def isComparison (members : List (String × Json)) : Bool :=
  !members.isEmpty && members.all fun (key, _) => isOperatorKey key

/-- The quantifier that is the only key of an object. -/
def soleQuantifier? : List (String × Json) → Option Quantifier
  | [(key, _)] => Quantifier.ofKey? key
  | _ => none

mutual
/-- A filter, with a reader for filters in texts. -/
def read (readText : String → Except QueryError Filter) : Json → Except QueryError Filter
  | .object members => .mk <$> readClauses readText members
  | .string s => readText s
  | other => .error (.filter (.notAnObject other.text))

/-- The clauses of an object, one a member. -/
def readClauses (readText : String → Except QueryError Filter) :
    List (String × Json) → Except QueryError (List Clause)
  | [] => .ok []
  | (key, value) :: rest => do
    let clause ←
      if key = "_and" then .all <$> readGroup readText key value
      else if key = "_or" then .any <$> readGroup readText key value
      else match keyFault? key with
        | some fault => .error fault
        | none => .field key <$> readCondition readText value
    return clause :: (← readClauses readText rest)

/-- The filters of a group. -/
def readGroup (readText : String → Except QueryError Filter) (key : String) :
    Json → Except QueryError (List Filter)
  | .array items => readFilters readText items
  | _ => .error (.filter (.notAList key))

/-- Filters in order. -/
def readFilters (readText : String → Except QueryError Filter) :
    List Json → Except QueryError (List Filter)
  | [] => .ok []
  | item :: rest => do return (← read readText item) :: (← readFilters readText rest)

/-- What is asked of a field. -/
def readCondition (readText : String → Except QueryError Filter) :
    Json → Except QueryError FieldCondition
  | .object members =>
    if isComparison members then
      .compare <$> members.mapM fun (key, value) => readComparison key value
    else match soleQuantifier? members with
      | some quantifier => .quantified quantifier <$> readFirst readText members
      | none =>
        if members.any fun (key, _) => isOperatorKey key then .error (.filter .mixedKeys)
        else (fun clauses => .nested ⟨clauses⟩) <$> readClauses readText members
  | value => .ok (.compare [⟨.equal false false, comparedValue value⟩])

/-- The filter under the first key of an object. -/
def readFirst (readText : String → Except QueryError Filter) :
    List (String × Json) → Except QueryError Filter
  | [] => .ok default
  | (_, value) :: _ => read readText value
end

/-- The filter that a text holds.  Texts in texts get shorter, so that the length of a text bounds
how deep they stand in one another. -/
def ofText : (levels : Nat) → String → Except QueryError Filter
  | 0, _ => .error (.filter .notJson)
  | levels + 1, s =>
    match Json.read? s with
    | none => .error (.filter .notJson)
    | some (.string _) => .error (.filter .textInText)
    | some json => read (ofText levels) json

/-- A filter in JSON. -/
def ofJson (json : Json) : Except QueryError Filter := read (fun s => ofText s.length s) json

end Filter

end JsonSql
