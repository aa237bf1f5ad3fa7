import JsonSql.Sql.Window

set_option autoImplicit false

/-!
# Statements as tokens

The tokens of expressions and queries in a dialect, and the text of a statement.  An empty list of
values to look in is no SQL: it is written as a comparison of integers that is false, or true if
the list is negated.
-/

namespace JsonSql.Sql

/-- The token of a literal. -/
def Literal.token : Literal → Token
  | int n => .int n
  | float x => .float x
  | string s => .str s
  | bool b => .bool b
  | null => .keyword .null

/-- The tokens of an operator. -/
def BinaryOp.tokens : BinaryOp → List Token
  | eq => [.symbol .eq]
  | ne => [.symbol .ne]
  | lt => [.symbol .lt]
  | gt => [.symbol .gt]
  | lte => [.symbol .lte]
  | gte => [.symbol .gte]
  | div => [.symbol .div]
  | and => [.keyword .and]
  | or => [.keyword .or]
  | like => [.keyword .like]
  | notLike => [.keyword .not, .space, .keyword .like]

/-- A table in front of a dot, if there is one. -/
def qualifierTokens : Option String → List Token
  | none => []
  | some table => [.ident table, .symbol .dot]

/-- A name under which something is known, if there is one. -/
def labelTokens : Option String → List Token
  | none => []
  | some name => [.space, .keyword .as_, .space, .ident name]

/-- A space and a negation, if there is one. -/
def negationTokens (negated : Bool) : List Token :=
  if negated then [.space, .keyword .not] else []

/-- A table and its label. -/
def TableRef.tokens (t : TableRef) : List Token :=
  .ident t.table :: labelTokens t.label

/-- A clause on a line of its own, if it holds anything. -/
def clauseTokens (word : Keyword) (body : List Token) : List Token :=
  [.newline, .keyword word, .space] ++ body

/-- A list clause, if its list is not empty. -/
def listClauseTokens (word : Keyword) (items : List (List Token)) : List Token :=
  if items.isEmpty then [] else clauseTokens word (commaList items)

/-- The ordering that says nothing about the order of rows. -/
def anyOrderTokens : List Token :=
  clauseTokens .orderBy (parenthesized [.keyword .select, .space, .keyword .null])

/-- The orders of a query; a dialect that wants an ordering before a window gets one that says
nothing. -/
def orderTokens (d : Dialect) (windowed : Bool) (orders : List (List Token)) : List Token :=
  if orders.isEmpty then
    if windowed && d.windowNeedsOrder then anyOrderTokens else []
  else listClauseTokens .orderBy orders

/-- The row window of a query, on a line of its own. -/
def windowTokens (d : Dialect) : Option Window → List Token
  | none => []
  | some w => .newline :: w.tokens d

/-- The comparison that an empty list of values stands for. -/
def emptyListTokens (negated : Bool) : List Token :=
  [.int 1, .space, .symbol .eq, .space, .int (if negated then 1 else 0)]

mutual
/-- The tokens of an expression. -/
def Expr.tokens (d : Dialect) : Expr → List Token
  | .column table name => qualifierTokens table ++ [.ident name]
  | .literal value => [value.token]
  | .binary op left right =>
    left.tokens d ++ .space :: op.tokens ++ .space :: right.tokens d
  | .not inner => .keyword .not :: .space :: inner.tokens d
  | .call name args distinct =>
    .function name :: parenthesized
      ((if distinct then [.keyword .distinct, .space] else []) ++ commaList (exprTokens d args))
  | .subquery query => parenthesized (query.tokens d)
  | .inList _ [] negated => emptyListTokens negated
  | .inList subject (item :: rest) negated =>
    subject.tokens d ++ negationTokens negated ++ [.space, .keyword .in_, .space] ++
      parenthesized (commaList (item.tokens d :: exprTokens d rest))
  | .inQuery subject query negated =>
    subject.tokens d ++ negationTokens negated ++ [.space, .keyword .in_, .space] ++
      parenthesized (query.tokens d)
  | .between subject low high negated =>
    subject.tokens d ++ negationTokens negated ++ [.space, .keyword .between, .space] ++
      low.tokens d ++ [.space, .keyword .and, .space] ++ high.tokens d
  | .isNull subject negated =>
    subject.tokens d ++ [.space, .keyword (if negated then .isNotNull else .isNull)]
  | .allColumns table => qualifierTokens table ++ [.symbol .star]
  | .paren inner => parenthesized (inner.tokens d)
  | .cast subject target =>
    .keyword .cast :: parenthesized
      (subject.tokens d ++ [.space, .keyword .as_, .space, .typeName (d.castTypeName target)])
  | .raw text => [.raw text]

/-- The tokens of each expression of a list. -/
def exprTokens (d : Dialect) : List Expr → List (List Token)
  | [] => []
  | e :: rest => e.tokens d :: exprTokens d rest

/-- The tokens of a projection. -/
def Item.tokens (d : Dialect) : Item → List Token
  | ⟨expr, label⟩ => expr.tokens d ++ labelTokens label

/-- The tokens of each projection, each on a line of its own. -/
def itemTokens (d : Dialect) : List Item → List (List Token)
  | [] => []
  | item :: rest => (.newline :: .indent 1 :: item.tokens d) :: itemTokens d rest

/-- The tokens of a join. -/
def Join.tokens (d : Dialect) : Join → List Token
  | ⟨target, condition⟩ =>
    [.newline, .keyword .leftJoin, .space] ++ target.tokens ++ [.space, .keyword .on_, .space] ++
      condition.tokens d

/-- The tokens of joins one after another. -/
def joinTokens (d : Dialect) : List Join → List Token
  | [] => []
  | join :: rest => join.tokens d ++ joinTokens d rest

/-- The tokens of an expression to order by. -/
def OrderItem.tokens (d : Dialect) : OrderItem → List Token
  | ⟨expr, direction⟩ =>
    expr.tokens d ++ [.space, .keyword (match direction with | .asc => .asc | .desc => .desc)]

/-- The tokens of each expression to order by. -/
def orderItemTokens (d : Dialect) : List OrderItem → List (List Token)
  | [] => []
  | item :: rest => item.tokens d :: orderItemTokens d rest

/-- The tokens of a condition, if there is one. -/
def conditionTokens (d : Dialect) : Option Expr → List Token
  | none => []
  | some e => clauseTokens .where_ (e.tokens d)

/-- The tokens of a query. -/
def Query.tokens (d : Dialect) : Query → List Token
  | ⟨items, source, joins, condition, groups, orders, window⟩ =>
    .keyword .select :: separated [.symbol .comma] (itemTokens d items) ++
      (match source with
        | none => []
        | some t => clauseTokens .from_ t.tokens) ++
      joinTokens d joins ++ conditionTokens d condition ++
      listClauseTokens .groupBy (exprTokens d groups) ++
      orderTokens d window.isSome (orderItemTokens d orders) ++
      windowTokens d window
end

/-- The text of an expression in a dialect. -/
def Expr.sql (d : Dialect) (e : Expr) : String := tokensText d (e.tokens d)

/-- The text of a query in a dialect. -/
def Query.sql (d : Dialect) (q : Query) : String := tokensText d (q.tokens d)

end JsonSql.Sql
