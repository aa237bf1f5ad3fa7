import JsonSql.Statement.Search
import JsonSql.Statement.Summary

set_option autoImplicit false

/-!
# Statements of requests

A request against a collection becomes a `SELECT` statement.  In order, the row window, the
ordering, the search, the groups, the filter and the aggregations are added to a statement that
selects from the collection.  A plain request selects every column of the collection; one that sums
up rows selects its groups and aggregations only.
-/

namespace JsonSql

open JsonSql.Sql

/-! ## Row windows -/

/-- The greatest unsigned integer of 64 bits. -/
def maxOffset : Nat := Decimal.nat64Limit - 1

/-- The limit of a request within the bounds of the options; a negative one stands for none. -/
def Options.effectiveLimit (o : Options) (requested : Option Int) : Int :=
  let limit := requested.getD o.defaultLimit
  if 0 ≤ o.maxLimit ∧ (limit < 0 ∨ o.maxLimit < limit) then o.maxLimit else limit

/-- The number of rows before a page, the first of which is page one. -/
def pageOffset (limit page : Nat) : Nat := min (limit * (page - 1)) maxOffset

/-- The row window that a request asks for. -/
def Options.window (o : Options) (r : Request) : Window :=
  let limit := match o.effectiveLimit r.limit with
    | .ofNat n => some n
    | .negSucc _ => none
  let offset := match limit, r.page with
    | some (n + 1), some page => some (pageOffset (n + 1) page)
    | _, _ => r.offset
  { limit, offset }

/-- The statement with what a window constrains put in the place of its own constraints. -/
def Query.narrow (q : Query) (w : Window) : Query :=
  let q := match w.limit with
    | some limit => q.setLimit limit
    | none => q
  match w.offset with
  | some offset => q.setOffset offset
  | none => q

/-! ## Requests -/

/-- A statement to which a request was added. -/
structure Applied where
  query : Query
  /-- whether the filter joined a link to several rows, so that rows may repeat -/
  repeatsRows : Bool

namespace Context

/-- Adds a request to a statement that selects from a collection.  An inner statement is neither
ordered nor given a window, and joins the links to several rows. -/
def apply (c : Context) (collection : String) (q : Query) (r : Request) (inner : Bool) :
    Compile Applied := do
  let info ← c.collection collection
  let mut scope : Scope := { query := q }
  if !inner then
    scope := { scope with query := Query.narrow q (c.options.window r) }
    scope ← r.sort.foldlM (c.sortBy collection) scope
  if let some term := r.search then
    scope := { scope with query := ← c.search collection scope.query term }
  scope ← r.group.foldlM (c.groupBy collection) scope
  let mut repeatsRows := false
  if let some f := r.filter then
    (scope, repeatsRows) ← c.restrict inner collection scope f
  if !r.aggregate.isEmpty then
    scope ← c.addAggregate info scope r.aggregate
  return { query := scope.query, repeatsRows }

end Context

/-- What compiles requests: a schema, options and a stream of aliases. -/
structure Compiler where
  provider : Provider
  options : Options := {}
  /-- the aliases in the order of issue -/
  names : Nat → String := Alias.sequential

namespace Compiler

/-- Adds a request to a statement that selects from a collection. -/
def apply (compiler : Compiler) (collection : String) (q : Query) (r : Request) (inner : Bool) :
    Except QueryError Applied := do
  let relations ← compiler.provider.relations.mapError QueryError.schema
  let c : Context := { compiler with relations }
  let (applied, _) ← (c.apply collection q r inner).run 0
  return applied

/-- The statement that a request is added to: every column of the collection, or no column yet
where rows are summed up. -/
def target (collection : String) (r : Request) : Query :=
  let q : Query := { source := some ⟨collection, none⟩ }
  if r.isSummary then q else q.selectAllOf collection

/-- The statement of a request against a collection. -/
def compile (compiler : Compiler) (collection : String) (r : Request) :
    Except QueryError Query := do
  let applied ← compiler.apply collection (target collection r) r false
  return applied.query

end Compiler

end JsonSql
