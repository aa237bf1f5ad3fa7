import JsonSql.Proofs.Truth
import JsonSql.Sql.Expr

set_option autoImplicit false

/-!
# What statements return

The rows that a statement returns from a database, before they are ordered and cut to a window.
Null is the absence of a value.  What the standard leaves to a database engine, such as its values,
how they compare and what functions make of them, is a parameter; joins, conditions, subqueries,
groups and counts are defined here.
-/

namespace JsonSql.Sql

/-! ## Engines -/

/-- What a database engine brings along. -/
structure Engine where
  /-- the values that are not null -/
  Datum : Type
  equals : Datum → Datum → Bool
  less : Datum → Datum → Bool
  /-- a text matches a pattern -/
  like : Datum → Datum → Bool
  ofBool : Bool → Datum
  /-- whether a value counts as true where it stands as a condition -/
  isTrue : Datum → Bool
  ofCount : Nat → Datum
  literal : Literal → Option Datum
  divide : Datum → Datum → Option Datum
  cast : CastType → Datum → Option Datum
  /-- a word of the dialect -/
  raw : String → Option Datum
  /-- a function of values -/
  call : String → List (Option Datum) → Option Datum
  /-- a function of the values of a group that are not null -/
  aggregate : String → List Datum → Option Datum
  equals_symm : ∀ a b, equals a b = equals b a
  equals_trans : ∀ a b c, equals a b = true → equals b c = true → equals a c = true
  isTrue_ofBool : ∀ b, isTrue (ofBool b) = b
  literal_null : literal .null = none

namespace Engine

/-- A value or null. -/
abbrev Value (E : Engine) := Option E.Datum

variable (E : Engine)

/-- The truth value of a condition that has a value. -/
def truth : E.Value → Truth
  | none => .unknown
  | some v => .ofBool (E.isTrue v)

/-- A truth value as a value. -/
def ofTruth : Truth → E.Value
  | .no => some (E.ofBool false)
  | .unknown => none
  | .yes => some (E.ofBool true)

@[simp] theorem truth_ofTruth (t : Truth) : E.truth (E.ofTruth t) = t := by
  cases t <;> simp [truth, ofTruth, E.isTrue_ofBool, Truth.ofBool]

/-- A comparison, which is unknown where one side is null. -/
def compare (test : E.Datum → E.Datum → Bool) : E.Value → E.Value → Truth
  | some a, some b => .ofBool (test a b)
  | _, _ => .unknown

/-- Two values are equal. -/
def same (a b : E.Value) : Truth := E.compare E.equals a b

theorem same_symm (a b : E.Value) : E.same a b = E.same b a := by
  cases a with
  | none => cases b <;> rfl
  | some x =>
    cases b with
    | none => rfl
    | some y => simp only [same, compare, E.equals_symm x y]

theorem same_trans {a b c : E.Value} (hab : E.same a b = .yes) (hbc : E.same b c = .yes) :
    E.same a c = .yes := by
  cases a with
  | none => cases hab
  | some x =>
    cases b with
    | none => cases hab
    | some y =>
      cases c with
      | none => cases hbc
      | some z =>
        simp only [same, compare, Truth.ofBool_eq_yes] at hab hbc ⊢
        exact E.equals_trans x y z hab hbc

/-- Null equals nothing. -/
theorem isSome_of_same {a b : E.Value} (h : E.same a b = .yes) : b.isSome := by
  cases b with
  | none => cases a <;> cases h
  | some y => rfl

/-- It is known whether two values are equal unless one is null. -/
theorem same_ne_yes_iff {a b : E.Value} (ha : a.isSome) (hb : b.isSome) :
    E.same a b ≠ .yes ↔ E.same a b = .no := by
  obtain ⟨x, rfl⟩ := Option.isSome_iff_exists.mp ha
  obtain ⟨y, rfl⟩ := Option.isSome_iff_exists.mp hb
  rw [same, compare]
  cases E.equals x y <;> simp [Truth.ofBool]

theorem same_none (b : E.Value) : E.same none b = .unknown := by
  cases b <;> rfl

/-- The first of two values is not greater. -/
def atMost (a b : E.Datum) : Bool := E.less a b || E.equals a b

/-- The value of an operator between two values. -/
def binary (op : BinaryOp) (a b : E.Value) : E.Value :=
  match op with
  | .eq => E.ofTruth (E.same a b)
  | .ne => E.ofTruth (E.same a b).not
  | .lt => E.ofTruth (E.compare E.less a b)
  | .gt => E.ofTruth (E.compare E.less b a)
  | .lte => E.ofTruth (E.compare E.atMost a b)
  | .gte => E.ofTruth (E.compare E.atMost b a)
  | .like => E.ofTruth (E.compare E.like a b)
  | .notLike => E.ofTruth (E.compare E.like a b).not
  | .and => E.ofTruth ((E.truth a).and (E.truth b))
  | .or => E.ofTruth ((E.truth a).or (E.truth b))
  | .div => a.bind fun x => b.bind fun y => E.divide x y

/-- A value is among others. -/
def isAmong (a : E.Value) (values : List E.Value) : Truth := .any (values.map (E.same a))

theorem isAmong_eq_yes {a : E.Value} {values : List E.Value} :
    E.isAmong a values = .yes ↔ ∃ v ∈ values, E.same a v = .yes := by
  rw [isAmong, Truth.any_eq_yes, List.mem_map]

theorem isAmong_eq_no {a : E.Value} {values : List E.Value} :
    E.isAmong a values = .no ↔ ∀ v ∈ values, E.same a v = .no := by
  rw [isAmong, Truth.any_eq_no, List.forall_mem_map]

/-- Among values none of which is null it is known whether there is one. -/
theorem isAmong_eq_ofBool {a : E.Value} (ha : a.isSome) {values : List E.Value}
    (hvalues : ∀ v ∈ values, v.isSome) :
    E.isAmong a values = .ofBool (values.any fun v => E.same a v = .yes) := by
  obtain ⟨x, rfl⟩ := Option.isSome_iff_exists.mp ha
  induction values with
  | nil => rfl
  | cons v rest ih =>
    obtain ⟨y, rfl⟩ := Option.isSome_iff_exists.mp (hvalues v List.mem_cons_self)
    have hrest := ih fun w hw => hvalues w (List.mem_cons_of_mem _ hw)
    rw [isAmong] at hrest ⊢
    rw [List.map_cons, Truth.any_cons, hrest, List.any_cons, same, compare]
    cases E.equals x y <;> cases rest.any _ <;> rfl

/-! ### Groups -/

/-- Functions of a group of rows. -/
def aggregates : List String := ["COUNT", "SUM", "AVG", "MIN", "MAX"]

/-- Different values, each once. -/
def distinct : List E.Datum → List E.Datum
  | [] => []
  | v :: rest => v :: (distinct rest).filter fun w => !E.equals v w

/-- A function of the values of a group; nulls do not count. -/
def summary (name : String) (distinct : Bool) (values : List E.Value) : E.Value :=
  let known := values.filterMap id
  let counted := if distinct then E.distinct known else known
  if name = "COUNT" then some (E.ofCount counted.length) else E.aggregate name counted

/-- Two rows belong to one group; nulls belong together. -/
def sameKey : List E.Value → List E.Value → Bool
  | [], [] => true
  | none :: as, none :: bs => sameKey as bs
  | some a :: as, some b :: bs => E.equals a b && sameKey as bs
  | _, _ => false

end Engine

/-- Groups with one more item, which joins those that are alike or is a group of its own. -/
def addToGroup {α : Type} (alike : α → α → Bool) (item : α) : List (List α) → List (List α)
  | [] => [[item]]
  | group :: rest =>
    if group.any (alike item) then (item :: group) :: rest
    else group :: addToGroup alike item rest

/-- Some items, or the one that stands for none. -/
def orOne {α : Type} (item : α) : List α → List α
  | [] => [item]
  | items => items

theorem map_orOne {α β : Type} (f : α → β) (item : α) (items : List α) :
    (orOne item items).map f = orOne (f item) (items.map f) := by
  cases items <;> rfl

/-! ## Databases -/

/-- The values of a row by the names of their columns. -/
abbrev Row (E : Engine) := String → E.Value

/-- The row of a left join that found nothing. -/
def nullRow (E : Engine) : Row E := fun _ => none

/-- The rows of tables by the names of the tables. -/
abbrev Database (E : Engine) := String → List (Row E)

/-- One row of each table in scope under the name that it goes by, the nearest table first. -/
abbrev Tables (E : Engine) := List (String × Row E)

/-- The row of a table in scope. -/
def rowOf {E : Engine} (tables : Tables E) (name : String) : Row E :=
  (tables.lookup name).getD (nullRow E)

@[simp] theorem rowOf_cons_self {E : Engine} (name : String) (row : Row E) (tables : Tables E) :
    rowOf ((name, row) :: tables) name = row := by
  simp [rowOf]

theorem rowOf_cons_of_ne {E : Engine} {name other : String} (h : other ≠ name) (row : Row E)
    (tables : Tables E) : rowOf ((name, row) :: tables) other = rowOf tables other := by
  simp [rowOf, List.lookup_cons, beq_false_of_ne h]

/-- The row that a qualifier stands for; without one, the row of the nearest table. -/
def qualifiedRow {E : Engine} (tables : Tables E) : Option String → Row E
  | some name => rowOf tables name
  | none => (tables.head?.map Prod.snd).getD (nullRow E)

/-- What stands in a column of the result: a value, or every value of a row. -/
inductive Cell (E : Engine) where
  | value (v : E.Value)
  | row (r : Row E)

/-- The value in the first column of a row of a result. -/
def firstValue {E : Engine} : List (Cell E) → E.Value
  | .value v :: _ => v
  | _ => none

/-- The table of which an expression gives every column. -/
def Expr.wholeRow? : Expr → Option (Option String)
  | .allColumns table => some table
  | _ => none

/-- The arguments of a count of rows. -/
def areWholeRows : List Expr → Bool
  | [e] => e.wholeRow?.isSome
  | _ => false

/-- A projection that sums up the rows of a group. -/
def Item.isAggregate (item : Item) : Bool :=
  match item.expr with
  | .call name _ _ => Engine.aggregates.contains name
  | _ => false

/-- The rows of a table with the other tables in scope; without a table, the others only. -/
def sourceTables {E : Engine} (db : Database E) (outer : Tables E) :
    Option TableRef → List (Tables E)
  | none => [outer]
  | some t => (db t.table).map fun row => (t.referenceName, row) :: outer

/-! ## Statements -/

section

variable {E : Engine} (db : Database E)

mutual
/-- The value of an expression on a row of each table in scope, within a group of such rows. -/
def Expr.value (group : List (Tables E)) (tables : Tables E) : Expr → E.Value
  | .column table name => qualifiedRow tables table name
  | .literal value => E.literal value
  | .binary op left right => E.binary op (left.value group tables) (right.value group tables)
  | .not inner => E.ofTruth (E.truth (inner.value group tables)).not
  | .call name args distinct =>
    if Engine.aggregates.contains name then
      if areWholeRows args then some (E.ofCount group.length)
      else E.summary name distinct (group.flatMap fun tables => exprValues [] tables args)
    else E.call name (exprValues group tables args)
  | .subquery query => (query.output tables).head?.bind firstValue
  | .inList subject items negated =>
    let t := E.isAmong (subject.value group tables) (exprValues group tables items)
    E.ofTruth (t.negatedIf negated)
  | .inQuery subject query negated =>
    let t := E.isAmong (subject.value group tables) ((query.output tables).map firstValue)
    E.ofTruth (t.negatedIf negated)
  | .between subject low high negated =>
    let v := subject.value group tables
    let t := (E.compare E.atMost (low.value group tables) v).and
      (E.compare E.atMost v (high.value group tables))
    E.ofTruth (t.negatedIf negated)
  | .isNull subject negated =>
    E.ofTruth (.ofBool ((subject.value group tables).isNone != negated))
  | .allColumns _ => none
  | .paren inner => inner.value group tables
  | .cast subject target => (subject.value group tables).bind (E.cast target)
  | .raw text => E.raw text

/-- The values of expressions. -/
def exprValues (group : List (Tables E)) (tables : Tables E) : List Expr → List E.Value
  | [] => []
  | e :: rest => e.value group tables :: exprValues group tables rest

/-- The cell of a projection. -/
def Item.cell (group : List (Tables E)) (tables : Tables E) : Item → Cell E
  | ⟨expr, _⟩ =>
    match expr.wholeRow? with
    | some table => .row (qualifiedRow tables table)
    | none => .value (expr.value group tables)

/-- The cells of projections. -/
def itemCells (group : List (Tables E)) (tables : Tables E) : List Item → List (Cell E)
  | [] => []
  | item :: rest => item.cell group tables :: itemCells group tables rest

/-- The rows that a left join puts beside a row: those that meet the condition, or else nulls. -/
def Join.tables (tables : Tables E) : Join → List (Tables E)
  | ⟨target, condition⟩ =>
    orOne ((target.referenceName, nullRow E) :: tables)
      ((sourceTables db tables (some target)).filter fun tables =>
        E.truth (condition.value [] tables) = .yes)

/-- The rows that joins put beside a row, one join after another. -/
def joinTables (tables : Tables E) : List Join → List (Tables E)
  | [] => [tables]
  | join :: rest => (join.tables tables).flatMap fun tables => joinTables tables rest

/-- Whether a row meets a condition, if there is one. -/
def meets (tables : Tables E) : Option Expr → Bool
  | none => true
  | some e => E.truth (e.value [] tables) = .yes

/-- The rows that a statement returns, with the tables of an outer statement in scope. -/
def Query.output (outer : Tables E) : Query → List (List (Cell E))
  | ⟨items, source, joins, condition, groups, _, _⟩ =>
    let joined := (sourceTables db outer source).flatMap fun tables => joinTables tables joins
    let rows := joined.filter fun tables => meets tables condition
    if groups.isEmpty && !items.any Item.isAggregate then
      rows.map fun tables => itemCells [] tables items
    else
      let alike (a b : Tables E) := E.sameKey (exprValues [] a groups) (exprValues [] b groups)
      let grouped := if groups.isEmpty then [rows] else rows.foldr (addToGroup alike) []
      grouped.map fun group => itemCells group (group.headD outer) items
end

/-- The truth value of a condition on a row of each table in scope. -/
def Expr.truthOn (tables : Tables E) (e : Expr) : Truth := E.truth (e.value db [] tables)

/-! ### Conditions -/

attribute [local simp] Expr.value Query.output

variable (tables : Tables E)

@[simp] theorem value_of (table name : String) :
    (Expr.of table name).value db [] tables = rowOf tables table name := by
  rw [Expr.of, Expr.value, qualifiedRow]

@[simp] theorem value_literal (value : Literal) :
    (Expr.literal value).value db [] tables = E.literal value := by
  rw [Expr.value]

@[simp] theorem value_cast (e : Expr) (target : CastType) :
    (Expr.cast e target).value db [] tables = (e.value db [] tables).bind (E.cast target) := by
  rw [Expr.value]

@[simp] theorem truthOn_paren (e : Expr) :
    (Expr.paren e).truthOn db tables = e.truthOn db tables := by
  rw [Expr.truthOn, Expr.value, ← Expr.truthOn]

@[simp] theorem truthOn_guarded (e : Expr) : e.guarded.truthOn db tables = e.truthOn db tables := by
  unfold Expr.guarded
  split
  · exact truthOn_paren db tables e
  · rfl

@[simp] theorem truthOn_both (left right : Expr) : (Expr.both left right).truthOn db tables =
    (left.truthOn db tables).and (right.truthOn db tables) := by
  rw [Expr.both, Expr.truthOn, Expr.value, Engine.binary, E.truth_ofTruth, Expr.truthOn,
    Expr.truthOn]

@[simp] theorem truthOn_either (left right : Expr) : (Expr.either left right).truthOn db tables =
    (left.truthOn db tables).or (right.truthOn db tables) := by
  rw [Expr.either, Expr.truthOn, Expr.value, Engine.binary, E.truth_ofTruth, Expr.truthOn,
    Expr.truthOn]

@[simp] theorem truthOn_not (e : Expr) :
    (Expr.not e).truthOn db tables = (e.truthOn db tables).not := by
  rw [Expr.truthOn, Expr.value, E.truth_ofTruth, Expr.truthOn]

@[simp] theorem truthOn_equals (left right : Expr) : (Expr.equals left right).truthOn db tables =
    E.same (left.value db [] tables) (right.value db [] tables) := by
  rw [Expr.equals, Expr.truthOn, Expr.value, Engine.binary, E.truth_ofTruth]

@[simp] theorem truthOn_isNull (subject : Expr) (negated : Bool) :
    (Expr.isNull subject negated).truthOn db tables =
      .ofBool ((subject.value db [] tables).isNone != negated) := by
  rw [Expr.truthOn, Expr.value, E.truth_ofTruth]

theorem truthOn_isKnown (subject : Expr) :
    (Expr.isNull subject true).truthOn db tables = .yes ↔
      (subject.value db [] tables).isSome := by
  rw [truthOn_isNull, Truth.ofBool_eq_yes]
  cases subject.value db [] tables <;> simp

theorem truthOn_binary (op : BinaryOp) (left right : Expr) :
    (Expr.binary op left right).truthOn db tables =
      E.truth (E.binary op (left.value db [] tables) (right.value db [] tables)) := by
  rw [Expr.truthOn, Expr.value]

@[simp] theorem truthOn_between (subject low high : Expr) (negated : Bool) :
    (Expr.between subject low high negated).truthOn db tables =
      ((E.compare E.atMost (low.value db [] tables) (subject.value db [] tables)).and
        (E.compare E.atMost (subject.value db [] tables)
          (high.value db [] tables))).negatedIf negated := by
  rw [Expr.truthOn, Expr.value, E.truth_ofTruth]

theorem exprValues_eq_map (group : List (Tables E)) (es : List Expr) :
    exprValues db group tables es = es.map (Expr.value db group tables) := by
  induction es with
  | nil => rw [exprValues, List.map_nil]
  | cons e rest ih => rw [exprValues, List.map_cons, ih]

theorem itemCells_eq_map (group : List (Tables E)) (tables : Tables E) (items : List Item) :
    itemCells db group tables items = items.map (Item.cell db group tables) := by
  induction items with
  | nil => rw [itemCells, List.map_nil]
  | cons item rest ih => rw [itemCells, List.map_cons, ih]

/-- A function that sums up no group is one of the engine. -/
theorem value_apply {name : String} (h : Engine.aggregates.contains name = false)
    (args : List Expr) : (Expr.apply name args).value db [] tables =
      E.call name (args.map (Expr.value db [] tables)) := by
  rw [Expr.apply, Expr.value, h, exprValues_eq_map]
  rfl

@[simp] theorem truthOn_inList (subject : Expr) (items : List Expr) (negated : Bool) :
    (Expr.inList subject items negated).truthOn db tables =
      (E.isAmong (subject.value db [] tables)
        (items.map (Expr.value db [] tables))).negatedIf negated := by
  rw [Expr.truthOn, Expr.value, E.truth_ofTruth, exprValues_eq_map]

@[simp] theorem truthOn_inQuery (subject : Expr) (q : Query) (negated : Bool) :
    (Expr.inQuery subject q negated).truthOn db tables =
      (E.isAmong (subject.value db [] tables)
        ((q.output db tables).map firstValue)).negatedIf negated := by
  rw [Expr.truthOn, Expr.value, E.truth_ofTruth]

theorem meets_eq_true {e : Expr} :
    meets db tables (some e) = true ↔ e.truthOn db tables = .yes := by
  rw [meets, decide_eq_true_eq, Expr.truthOn]

/-! ### Joins -/

@[simp] theorem joinTables_nil : joinTables db tables [] = [tables] := by
  rw [joinTables]

theorem joinTables_singleton (join : Join) :
    joinTables db tables [join] = join.tables db tables := by
  simp [joinTables]

/-- The joins of a list of joins come one after another. -/
theorem joinTables_append (first second : List Join) :
    joinTables db tables (first ++ second) =
      (joinTables db tables first).flatMap fun tables => joinTables db tables second := by
  induction first generalizing tables with
  | nil => simp
  | cons join rest ih =>
    simp only [List.cons_append, joinTables, ih, List.flatMap_assoc]

/-- A left join adds rows of its table, each in front of the row that it is joined to. -/
theorem join_tables_eq (target : TableRef) (condition : Expr) :
    (Join.mk target condition).tables db tables =
      (orOne (nullRow E) ((db target.table).filter fun row =>
        meets db ((target.referenceName, row) :: tables) (some condition))).map fun row =>
          (target.referenceName, row) :: tables := by
  rw [Join.tables, map_orOne]
  simp only [sourceTables, List.filter_map, Function.comp_def, meets]

/-! ### Plain statements -/

/-- A statement with one projection, which sums nothing up, returns its cell on every row that
meets the condition. -/
theorem output_select {item : Item} (hitem : item.isAggregate = false) (collection : String)
    (joins : List Join) (condition : Option Expr) (orders : List OrderItem)
    (window : Option Window) :
    Query.output db tables ⟨[item], some ⟨collection, none⟩, joins, condition, [], orders, window⟩ =
      (((db collection).flatMap fun row =>
        joinTables db ((collection, row) :: tables) joins).filter fun tables =>
          meets db tables condition).map fun tables => [item.cell db [] tables] := by
  rw [Query.output]
  simp [hitem, sourceTables, TableRef.referenceName, List.flatMap_map, itemCells]

/-! ### Counts -/

/-- A count of the rows of a table that meet a condition. -/
theorem value_countRows (collection name : String) (condition : Expr) :
    (Expr.subquery {
        items := [⟨.countRows, none⟩]
        source := some ⟨collection, some name⟩
        condition := some condition }).value db [] tables =
      some (E.ofCount ((db collection).filter fun row =>
        meets db ((name, row) :: tables) (some condition)).length) := by
  rw [Expr.value, Query.output]
  have hcounts : Item.isAggregate ⟨.countRows, none⟩ = true := rfl
  have hcell (group : List (Tables E)) (tables : Tables E) :
      Item.cell db group tables ⟨.countRows, none⟩ = .value (some (E.ofCount group.length)) := by
    rw [Item.cell, Expr.countRows, Expr.count, Expr.apply, Expr.value]
    rfl
  simp only [sourceTables, joinTables_nil, List.flatMap_singleton', List.isEmpty_nil,
    List.any_cons, hcounts, Bool.true_or, Bool.not_true, Bool.and_false, Bool.false_eq_true,
    if_false, if_true, List.map_cons, List.map_nil, List.head?_cons, Option.bind_some]
  rw [itemCells, hcell, firstValue, List.filter_map, List.length_map]
  rfl

end

end JsonSql.Sql
