import JsonSql.Request.Operator

set_option autoImplicit false

/-!
# Filters

A filter is a list of clauses that hold together: groups of filters of which all or some hold, and
conditions on fields.  The key of a field is one segment of a path or several joined by dots.  A
field is compared with values, has the filter of its related row nested in it, or has it quantified
over its related rows.
-/

namespace JsonSql

/-- An operator with its value; null stands for no value, and nulls in a list do not count. -/
structure Comparison where
  operator : Operator
  value : Option Json := none
  deriving Repr, Inhabited

/-- How many of the related rows meet a filter. -/
inductive Quantifier where
  | some
  | none
  deriving DecidableEq, Repr, Inhabited

mutual
/-- Clauses that hold together. -/
structure Filter where
  clauses : List Clause

/-- One condition of a filter. -/
inductive Clause where
  | all (filters : List Filter)
  | any (filters : List Filter)
  | field (key : String) (condition : FieldCondition)

/-- What is asked of a field. -/
inductive FieldCondition where
  /-- every comparison holds -/
  | compare (comparisons : List Comparison)
  /-- so many of the related rows meet a filter -/
  | quantified (quantifier : Quantifier) (filter : Filter)
  /-- the related row meets a filter -/
  | nested (filter : Filter)
end

instance : Inhabited Filter := ⟨⟨[]⟩⟩
instance : Inhabited Clause := ⟨.all []⟩
instance : Inhabited FieldCondition := ⟨.compare []⟩

/-- The filter of one clause. -/
def Filter.of (c : Clause) : Filter := ⟨[c]⟩

/-- The filter without clauses, which everything meets. -/
def Filter.isEmpty (f : Filter) : Bool := f.clauses.isEmpty

end JsonSql
