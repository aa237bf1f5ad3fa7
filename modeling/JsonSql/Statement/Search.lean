import JsonSql.Statement.Condition
import JsonSql.Text.Hex

set_option autoImplicit false

/-!
# Free-text search

A search term is looked for in every field that can hold it: in texts whatever the case, among
numbers and universally unique identifiers by equality.  Where no field can hold the term, no row
is found.
-/

namespace JsonSql

open JsonSql.Decimal
open JsonSql.Sql

/-- Five groups of hexadecimal digits with hyphens between them. -/
def isHyphenatedUuid (cs : List Char) : Bool :=
  (Text.splitChars '-' cs).map List.length = [8, 4, 4, 4, 12] &&
    cs.all fun c => c = '-' || isHexDigit c

/-- The written forms of a universally unique identifier: thirty-two digits, or five groups of
them, which may stand in braces or after `urn:uuid:`, whatever the case of these letters. -/
def isUuid (s : String) : Bool :=
  let cs := s.toList
  (cs.length = 32 && cs.all isHexDigit) || isHyphenatedUuid cs ||
    ((Text.after? "\x7b" s).bind (Text.before? "\x7d")).any (fun t => isHyphenatedUuid t.toList) ||
    (Text.after? "urn:uuid:" (Text.toLowerAscii s)).any fun t => isHyphenatedUuid t.toList

/-- The literal for which a field of a type is searched by equality. -/
def searchLiteral? (type : FieldType) (term : String) : Option Literal :=
  match type with
  | .integer | .bigInteger =>
    (readInt64? term).map Literal.int <|> (readFinite? term).map fun x => .float (.finite x)
  | .decimal | .float => (readFinite? term).map fun x => .float (.finite x)
  | .uuid => if isUuid term then some (.string term) else none
  | _ => none

/-- The predicate by which a field is searched for a term, if it can hold it. -/
def searchPredicate? (collection term : String) (f : Field) : Option Expr :=
  if f.isAlias || f.isConcealed then none
  else
    let column := Expr.of collection f.name
    if f.type.isText then
      let pattern := Placement.anywhere.pattern (Text.toLower term)
      some (.binary .like (.lower column) (.string pattern))
    else (searchLiteral? f.type term).map fun value => .equals column (.literal value)

/-- The condition that some field holds a term. -/
def searchCondition (collection term : String) (fields : List Field) : Expr :=
  (disjunction? (fields.filterMap (searchPredicate? collection term))).getD
    (.equals (.int 1) (.int 0))

/-- The statement with the condition of a search. -/
def Context.search (c : Context) (collection : String) (q : Query) (term : String) :
    Compile Query := do
  let fields ← Context.ask (c.provider.fields collection)
  return q.addCondition (searchCondition collection (Text.trim term) fields)

example : isUuid "67e55044-10b1-426f-9247-bb680e5fe0c8" = true := by decide +kernel
example : isUuid "67e55044-10b1-426f-9247bb680e5fe0c8-" = false := by decide +kernel

end JsonSql
