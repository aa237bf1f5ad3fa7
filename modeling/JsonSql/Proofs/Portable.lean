import JsonSql.Proofs.Relations

set_option autoImplicit false

/-!
# What dialects say alike

A dialect has its own words for the parts of dates and times, for the number of items of a JSON
value, for the literals of dates and times and for spatial operators, and none for the rest of what
a request asks.  A key that reads nothing of the kind is portable, and so is a comparison that needs
none of these words.
-/

namespace JsonSql

open JsonSql.Sql

/-! ## Keys -/

/-- A function that dialects spell alike on fields of a type: a count of rows, not a part of a date
or time and not the number of items of a JSON value. -/
def FieldFunction.IsPortable (type : FieldType) : FieldFunction → Prop
  | .part _ => type.dateKind? = none
  | .count => type ≠ .json

/-- A key of a collection that wraps no date or time in a function, and no JSON field in a count. -/
def Schema.ReadsPortably (s : Schema) (owner key : String) : Prop :=
  ∀ name function f, (splitFunction key).1 = some name →
    FieldFunction.ofName? name = some function →
    s.field? owner (splitFunction key).2 = some f → function.IsPortable f.type

/-- Comparisons of a key that reads portably: the key itself is no date or time, and no operator is
spatial. -/
structure Schema.ComparesPortably (s : Schema) (owner key : String)
    (comparisons : List Comparison) : Prop where
  reads : s.ReadsPortably owner key
  plain : ∀ f, (splitFunction key).1 = none → s.field? owner (splitFunction key).2 = some f →
    f.type.dateKind? = none
  operators : ∀ comparison ∈ comparisons, comparison.operator.arity ≠ .geometry

/-- Two dialects say alike what a key of a collection reads. -/
def Schema.ReadsAlike (s : Schema) (d d' : Dialect) (owner key : String) : Prop :=
  d = d' ∨ s.ReadsPortably owner key

/-- Two dialects say comparisons of a key alike. -/
def Schema.ComparesAlike (s : Schema) (d d' : Dialect) (owner key : String)
    (comparisons : List Comparison) : Prop :=
  d = d' ∨ s.ComparesPortably owner key comparisons

/-- A request that is the same in every dialect: no key of its orderings, groups, aggregations and
of its filter, at any depth, wraps a date or time in a function or a JSON field in a count, and its
filter compares no date or time and uses no spatial operator. -/
structure Context.IsPortable (c : Context) (s : Schema) (collection : String) (r : Request) :
    Prop where
  reads : ∀ path ∈ r.sort.map sortPath ++ r.group.map fieldPath ++
      (r.aggregate.flatMap Prod.snd).map fieldPath, ∀ owner key,
    c.destination? collection path.dropLast = some owner → path.getLast? = some key →
      s.ReadsPortably owner key
  compares : ∀ f, r.filter = some f → ∀ owner key comparisons,
    c.Compares collection f.unfolded owner key comparisons →
      s.ComparesPortably owner key comparisons

/-- Whether a request is portable depends on the fields and the relations only. -/
theorem Context.IsPortable.congr {c c' : Context} {s : Schema} {collection : String} {r : Request}
    (h : c.relations = c'.relations) (hportable : c.IsPortable s collection r) :
    c'.IsPortable s collection r := by
  refine ⟨fun path hpath owner key howner hkey => ?_,
    fun f hf owner key comparisons hcompares =>
      hportable.compares f hf owner key comparisons (hcompares.congr h.symm)⟩
  rw [← Context.destination?_congr h] at howner
  exact hportable.reads path hpath owner key howner hkey

/-! ## Literals and predicates -/

/-- Literals other than dates and times are those of every dialect. -/
theorem list_congr (d d' : Dialect) {kind : ValueKind} (h : ∀ dateKind, kind ≠ .date dateKind)
    (arity : Arity) (value : Json) :
    Literal.list d kind arity value = Literal.list d' kind arity value := by
  have htext (text : String) : Literal.ofText d kind text = Literal.ofText d' kind text := by
    cases kind with
    | date dateKind => exact absurd rfl (h dateKind)
    | number | boolean | geometry | plain => rfl
  unfold Literal.list
  refine List.map_congr_left fun item _ => ?_
  cases item with
  | string text => exact htext text
  | number _ | bool _ | null | array _ | object _ => rfl

/-- Predicates other than spatial ones are those of every dialect. -/
theorem predicate?_congr (d d' : Dialect) {op : Operator} (h : op.arity ≠ .geometry) (e : Expr)
    (values : List Literal) (kept : Bool) :
    op.predicate? d e values kept = op.predicate? d' e values kept := by
  cases op with
  | intersects boxes negated => exact absurd rfl h
  | equal _ _ | less | lessOrEqual | greater | greaterOrEqual | oneOf _ | null _ | empty _
  | holds _ _ _ | between _ => rfl

/-- What a column holds is a date or time only if it is a field of such a type. -/
theorem valueKind_ne_date {column : Column}
    (h : column.isFunction = false → column.type.dateKind? = none) (dateKind : Calendar.DateKind) :
    column.valueKind ≠ .date dateKind := by
  unfold Column.valueKind
  split
  · nofun
  · next hplain =>
    unfold FieldType.valueKind
    rw [h (Bool.eq_false_iff.mpr hplain)]
    dsimp only
    split
    · nofun
    · split <;> nofun

end JsonSql
