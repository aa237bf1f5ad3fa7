import JsonSql.Decimal.Layout
import JsonSql.Sql.Quote

set_option autoImplicit false

/-!
# Tokens of SQL text

The pieces that a statement is written with.  A statement is a list of tokens first and becomes
text token by token, so quoting and the spelling of literals are decided here and nowhere else.
-/

namespace JsonSql.Sql

open JsonSql.Decimal

/-- A reserved word.  Words of several parts are one token, so nothing comes between them. -/
inductive Keyword where
  | select
  | from_
  | where_
  | and
  | or
  | not
  | as_
  | on_
  | leftJoin
  | groupBy
  | orderBy
  | asc
  | desc
  | limit
  | offset
  | fetchNext
  | rows
  | only
  | in_
  | between
  | like
  | isNull
  | isNotNull
  | distinct
  | cast
  | null
  deriving DecidableEq, Repr, Inhabited

/-- Punctuation and operators. -/
inductive Symbol where
  | comma
  | dot
  | star
  | lparen
  | rparen
  | eq
  | ne
  | lt
  | gt
  | lte
  | gte
  | div
  deriving DecidableEq, Repr, Inhabited

/-- A piece of SQL text. -/
inductive Token where
  | keyword (word : Keyword)
  | symbol (s : Symbol)
  | space
  | newline
  | indent (depth : Nat)
  /-- a name, quoted by the dialect -/
  | ident (name : String)
  | int (n : Int)
  /-- a number; `NULL` if it is not finite -/
  | float (x : Binary64)
  /-- a string, quoted and escaped by the dialect -/
  | str (s : String)
  | bool (b : Bool)
  /-- the name of a function, written in upper case -/
  | function (name : String)
  /-- the name of a type of the dialect -/
  | typeName (name : String)
  /-- vocabulary of the dialect, written as it stands; values of a request never get here -/
  | raw (text : String)
  deriving DecidableEq, Repr, Inhabited

/-- The text of a reserved word. -/
def Keyword.text : Keyword → String
  | select => "SELECT"
  | from_ => "FROM"
  | where_ => "WHERE"
  | and => "AND"
  | or => "OR"
  | not => "NOT"
  | as_ => "AS"
  | on_ => "ON"
  | leftJoin => "LEFT JOIN"
  | groupBy => "GROUP BY"
  | orderBy => "ORDER BY"
  | asc => "ASC"
  | desc => "DESC"
  | limit => "LIMIT"
  | offset => "OFFSET"
  | fetchNext => "FETCH NEXT"
  | rows => "ROWS"
  | only => "ONLY"
  | in_ => "IN"
  | between => "BETWEEN"
  | like => "LIKE"
  | isNull => "IS NULL"
  | isNotNull => "IS NOT NULL"
  | distinct => "DISTINCT"
  | cast => "CAST"
  | null => "NULL"

/-- The text of a symbol. -/
def Symbol.text : Symbol → String
  | comma => ","
  | dot => "."
  | star => "*"
  | lparen => "("
  | rparen => ")"
  | eq => "="
  | ne => "<>"
  | lt => "<"
  | gt => ">"
  | lte => "<="
  | gte => ">="
  | div => "/"

namespace Token

/-- The characters of a token in a dialect. -/
def chars (d : Dialect) : Token → List Char
  | keyword word => word.text.toList
  | symbol s => s.text.toList
  | space => [' ']
  | newline => ['\n']
  | indent depth => List.replicate (2 * depth) ' '
  | ident name => d.quoteIdent name
  | int n => (toString n).toList
  | float (.finite x) => (x.text .sql).toList
  | float _ => Keyword.null.text.toList
  | str s => d.quoteString s
  | bool b => (d.boolText b).toList
  | function name => (Text.toUpper name).toList
  | typeName name => name.toList
  | raw text => text.toList

/-- The text of a token in a dialect. -/
def text (d : Dialect) (t : Token) : String := .ofList (t.chars d)

end Token

/-- The text of tokens one after another. -/
def tokensText (d : Dialect) (tokens : List Token) : String :=
  .ofList (tokens.flatMap (Token.chars d))

/-- Lists of tokens one after another with a separator between them. -/
def separated (separator : List Token) : List (List Token) → List Token
  | [] => []
  | [item] => item
  | item :: rest => item ++ separator ++ separated separator rest

/-- Lists of tokens with a comma and a space between them. -/
def commaList (items : List (List Token)) : List Token :=
  separated [.symbol .comma, .space] items

/-- Tokens in parentheses. -/
def parenthesized (tokens : List Token) : List Token :=
  .symbol .lparen :: tokens ++ [.symbol .rparen]

theorem tokensText_append (d : Dialect) (first second : List Token) :
    tokensText d (first ++ second) = tokensText d first ++ tokensText d second := by
  simp [tokensText]

end JsonSql.Sql
