import JsonSql.Proofs.Run

set_option autoImplicit false

/-!
# The shape of compiled statements

What the compilation puts into a statement, whatever the request: columns of known tables and
functions of them, predicates of operators on these, groups of conditions, existential conditions
and joins along links.  `names` are the tables and aliases that a condition may refer to.  What
holds of every expression of this shape holds of every compiled statement, so properties of
statements are proved by induction on the shape and the compilation is looked at once.
-/

namespace JsonSql

open JsonSql.Calendar
open JsonSql.Sql

/-- The aliases of joins in their order. -/
def joinNames (joins : List Join) : List String :=
  joins.map fun j => j.target.referenceName

@[simp] theorem joinNames_append (first second : List Join) :
    joinNames (first ++ second) = joinNames first ++ joinNames second :=
  List.map_append

/-! ## Links between tables -/

/-- The condition under which rows of two tables belong together: equal keys, or a polymorphic key
that refers to a row. -/
inductive IsLink (names : List String) : Expr → Prop
  | keys {t u : String} (a b : String) : t ∈ names → u ∈ names →
      IsLink names (.equals (.of t a) (.of u b))
  | polymorphic {t u : String} (discriminator field collection key : String) :
      t ∈ names → u ∈ names →
      IsLink names (refersTo t discriminator field collection (.of u key))

/-- Joins one after another, each on the tables before it and its own. -/
def AreLinked (names : List String) : List Join → Prop
  | [] => True
  | ⟨target, condition⟩ :: rest =>
    IsLink (target.referenceName :: names) condition ∧
      AreLinked (target.referenceName :: names) rest

/-! ## Expressions -/

/-- The number of rows that a link leads to from a row of the table `t`. -/
inductive IsCount (t : String) : Query → Prop
  | mk (collection name : String) {condition : Expr} : IsLink [name, t] condition →
      IsCount t {
        items := [⟨.countRows, none⟩]
        source := some ⟨collection, some name⟩
        condition := some condition }

/-- An expression that reads the field at the end of a path. -/
inductive IsColumn (names : List String) : Expr → Prop
  | plain {t : String} (name : String) : t ∈ names → IsColumn names (.of t name)
  | part {t : String} (d : Dialect) (part : DatePart) (kind : DateKind) (name : String) :
      t ∈ names → IsColumn names (d.datePart part kind (.of t name))
  | jsonLength {t : String} (d : Dialect) (name : String) {e : Expr} : t ∈ names →
      d.jsonArrayLength? (.of t name) = some e → IsColumn names e
  | count {t : String} {q : Query} : t ∈ names → IsCount t q → IsColumn names (.subquery q)

/-- The key of a row of a table, as text where the other side is polymorphic. -/
inductive IsKey (names : List String) : Expr → Prop
  | plain {t : String} (name : String) : t ∈ names → IsKey names (.of t name)
  | text {t : String} (name : String) : t ∈ names → IsKey names (.cast (.of t name) .text)

/-- Whether an operator compares two values. -/
def Sql.BinaryOp.isComparison : BinaryOp → Bool
  | .and | .or | .div => false
  | _ => true

/-- The predicate of an operator on a column. -/
inductive IsPredicate (column : Expr) : Expr → Prop
  | null (negated : Bool) : IsPredicate column (.isNull column negated)
  | compare {op : BinaryOp} (value : Literal) : op.isComparison = true →
      IsPredicate column (.binary op column (.literal value))
  | compareLower {op : BinaryOp} (value : Literal) : op.isComparison = true →
      IsPredicate column (.binary op (.lower column) (.literal value))
  | oneOf (values : List Literal) (negated : Bool) :
      IsPredicate column (.inList column (values.map .literal) negated)
  | between (low high : Literal) (negated : Bool) :
      IsPredicate column (.between column (.literal low) (.literal high) negated)
  | intersects (d : Dialect) (geojson : String) (boxes negated : Bool) {e : Expr} :
      d.intersects? column geojson boxes = some e →
      IsPredicate column (Operator.negatedIf negated e)

/-- A condition on rows of known tables. -/
inductive IsCondition : List String → Expr → Prop
  | predicate {names : List String} {column e : Expr} : IsColumn names column →
      IsPredicate column e → IsCondition names e
  /-- a search that nothing can meet -/
  | never (names : List String) : IsCondition names (.equals (.int 1) (.int 0))
  | both {names : List String} {left right : Expr} : IsCondition names left →
      IsCondition names right → left.isDisjunction = false → right.isDisjunction = false →
      IsCondition names (.both left right)
  | either {names : List String} {left right : Expr} : IsCondition names left →
      IsCondition names right → IsCondition names (.either left right)
  | paren {names : List String} {inner : Expr} : IsCondition names inner →
      IsCondition names (.paren inner)
  /-- a key is, or is not, among those that related rows refer to -/
  | existential {names : List String} {key condition : Expr} {joins : List Join}
      (collection field : String) (negated : Bool) : IsKey names key →
      AreLinked [collection] joins →
      IsCondition (joinNames joins ++ [collection]) condition →
      IsCondition names (.inQuery key {
        items := [⟨.of collection field, none⟩]
        source := some ⟨collection, none⟩
        joins := joins
        condition := some condition } negated)

/-- A projected expression. -/
inductive IsItem (names : List String) : Expr → Prop
  | table {t : String} : t ∈ names → IsItem names (.allColumns (some t))
  | column {e : Expr} : IsColumn names e → IsItem names e
  | rows : IsItem names .countRows
  | aggregation {e : Expr} (a : Aggregation) : IsColumn names e → IsItem names (a.apply e)

/-! ## Statements -/

/-- The tables and aliases that the parts of a statement on `collection` may refer to. -/
def knownNames (collection : String) (q : Query) : List String :=
  joinNames q.joins ++ [collection]

/-- A statement that reads from `collection` and whose parts have the shape of compiled ones. -/
structure IsStatement (collection : String) (q : Query) : Prop where
  source : q.source = some ⟨collection, none⟩
  joins : AreLinked [collection] q.joins
  items : ∀ item ∈ q.items, IsItem (knownNames collection q) item.expr
  condition : ∀ e ∈ q.condition, IsCondition (knownNames collection q) e
  groups : ∀ e ∈ q.groups, IsColumn (knownNames collection q) e
  orders : ∀ o ∈ q.orders, IsColumn (knownNames collection q) o.expr

/-! ## More tables

An expression of some shape keeps it where more tables are known. -/

section Mono

variable {names more : List String} (hsub : names ⊆ more)
include hsub

theorem IsLink.mono {e : Expr} (h : IsLink names e) : IsLink more e := by
  cases h with
  | keys a b ht hu => exact .keys a b (hsub ht) (hsub hu)
  | polymorphic discriminator field collection key ht hu =>
    exact .polymorphic discriminator field collection key (hsub ht) (hsub hu)

theorem IsColumn.mono {e : Expr} (h : IsColumn names e) : IsColumn more e := by
  cases h with
  | plain name ht => exact .plain name (hsub ht)
  | part d part kind name ht => exact .part d part kind name (hsub ht)
  | jsonLength d name ht he => exact .jsonLength d name (hsub ht) he
  | count ht hq => exact .count (hsub ht) hq

theorem IsKey.mono {e : Expr} (h : IsKey names e) : IsKey more e := by
  cases h with
  | plain name ht => exact .plain name (hsub ht)
  | text name ht => exact .text name (hsub ht)

theorem IsItem.mono {e : Expr} (h : IsItem names e) : IsItem more e := by
  cases h with
  | table ht => exact .table (hsub ht)
  | column he => exact .column (he.mono hsub)
  | rows => exact .rows
  | aggregation a he => exact .aggregation a (he.mono hsub)

end Mono

theorem IsCondition.mono {names more : List String} {e : Expr} (h : IsCondition names e)
    (hsub : names ⊆ more) : IsCondition more e := by
  induction h generalizing more with
  | predicate hcolumn he => exact .predicate (hcolumn.mono hsub) he
  | never names => exact .never more
  | both _ _ hl hr ihl ihr => exact .both (ihl hsub) (ihr hsub) hl hr
  | either _ _ ihl ihr => exact .either (ihl hsub) (ihr hsub)
  | paren _ ih => exact .paren (ih hsub)
  | existential collection field negated hkey hjoins hcondition _ =>
    exact .existential collection field negated (hkey.mono hsub) hjoins hcondition

theorem areLinked_append {names : List String} {first second : List Join} :
    AreLinked names (first ++ second) ↔
      AreLinked names first ∧ AreLinked ((joinNames first).reverse ++ names) second := by
  induction first generalizing names with
  | nil => simp [AreLinked, joinNames]
  | cons j rest ih =>
    obtain ⟨target, condition⟩ := j
    simp only [List.cons_append, AreLinked, ih, joinNames, List.map_cons, List.reverse_cons,
      List.append_assoc, List.nil_append, and_assoc]

/-! ## Groups of conditions -/

theorem IsCondition.guarded {names : List String} {e : Expr} (h : IsCondition names e) :
    IsCondition names e.guarded := by
  unfold Expr.guarded
  split
  · exact .paren h
  · exact h

/-- Conditions in conjunction; what is a disjunction stands in parentheses. -/
theorem IsCondition.guardedBoth {names : List String} {left right : Expr}
    (hl : IsCondition names left) (hr : IsCondition names right) :
    IsCondition names (.both left.guarded right.guarded) :=
  .both hl.guarded hr.guarded left.isDisjunction_guarded right.isDisjunction_guarded

theorem isCondition_conjunction? {names : List String} {parts : List Expr} {e : Expr}
    (hparts : ∀ p ∈ parts, IsCondition names p) (he : conjunction? parts = some e) :
    IsCondition names e := by
  cases parts with
  | nil => cases he
  | cons part rest =>
    cases he
    have hpart := hparts part List.mem_cons_self
    have hrest : ∀ p ∈ rest, IsCondition names p := fun p hp =>
      hparts p (List.mem_cons_of_mem _ hp)
    -- the accumulated conjunction is the invariant of the fold
    clear hparts
    induction rest generalizing part with
    | nil => exact hpart
    | cons next rest ih =>
      exact ih _ (hpart.guardedBoth (hrest next List.mem_cons_self))
        fun p hp => hrest p (List.mem_cons_of_mem _ hp)

theorem isCondition_disjunction? {names : List String} {parts : List Expr} {e : Expr}
    (hparts : ∀ p ∈ parts, IsCondition names p) (he : disjunction? parts = some e) :
    IsCondition names e := by
  cases parts with
  | nil => cases he
  | cons part rest =>
    cases he
    have hpart := hparts part List.mem_cons_self
    have hrest : ∀ p ∈ rest, IsCondition names p := fun p hp =>
      hparts p (List.mem_cons_of_mem _ hp)
    clear hparts
    induction rest generalizing part with
    | nil => exact hpart
    | cons next rest ih =>
      exact ih _ (.either hpart (hrest next List.mem_cons_self))
        fun p hp => hrest p (List.mem_cons_of_mem _ hp)

/-! ## Growing a statement -/

namespace IsStatement

variable {collection : String} {q : Query}

theorem addCondition (h : IsStatement collection q) {e : Expr}
    (he : IsCondition (knownNames collection q) e) :
    IsStatement collection (q.addCondition e) := by
  refine ⟨h.source, h.joins, h.items, ?_, h.groups, h.orders⟩
  intro condition hcondition
  cases hold : q.condition with
  | none =>
    have : condition = e.guarded := by simpa [Query.addCondition, hold, eq_comm] using hcondition
    rw [this]
    exact he.guarded
  | some old =>
    have : condition = .both old.guarded e.guarded := by
      simpa [Query.addCondition, hold, eq_comm] using hcondition
    rw [this]
    exact (h.condition old hold).guardedBoth he

theorem addJoin (h : IsStatement collection q) {target : TableRef} {e : Expr}
    (he : IsLink (target.referenceName :: knownNames collection q) e) :
    IsStatement collection (q.addJoin target e) := by
  have hsub : knownNames collection q ⊆ knownNames collection (q.addJoin target e) := by
    intro name hname
    simp only [knownNames, Query.addJoin_joins, joinNames_append, List.mem_append] at hname ⊢
    exact hname.elim (fun hj => .inl (.inl hj)) .inr
  refine ⟨h.source, ?_, fun item hitem => (h.items item hitem).mono hsub,
    fun e he => (h.condition e he).mono hsub, fun e he => (h.groups e he).mono hsub,
    fun o ho => (h.orders o ho).mono hsub⟩
  rw [Query.addJoin_joins, areLinked_append]
  refine ⟨h.joins, he.mono ?_, trivial⟩
  intro name hname
  simpa [knownNames] using hname

theorem addItem (h : IsStatement collection q) {item : Item}
    (hitem : IsItem (knownNames collection q) item.expr) :
    IsStatement collection (q.addItem item) := by
  refine ⟨h.source, h.joins, ?_, h.condition, h.groups, h.orders⟩
  intro i hi
  rcases List.mem_append.mp hi with hi | hi
  · exact h.items i hi
  · rw [List.mem_singleton.mp hi]
    exact hitem

theorem addGroup (h : IsStatement collection q) {e : Expr}
    (he : IsColumn (knownNames collection q) e) : IsStatement collection (q.addGroup e) := by
  refine ⟨h.source, h.joins, h.items, h.condition, ?_, h.orders⟩
  intro g hg
  rcases List.mem_append.mp hg with hg | hg
  · exact h.groups g hg
  · rw [List.mem_singleton.mp hg]
    exact he

theorem addOrder (h : IsStatement collection q) {o : OrderItem}
    (ho : IsColumn (knownNames collection q) o.expr) :
    IsStatement collection (q.addOrder o) := by
  refine ⟨h.source, h.joins, h.items, h.condition, h.groups, ?_⟩
  intro p hp
  rcases List.mem_append.mp hp with hp | hp
  · exact h.orders p hp
  · rw [List.mem_singleton.mp hp]
    exact ho

theorem narrow (h : IsStatement collection q) (w : Window) :
    IsStatement collection (Query.narrow q w) := by
  unfold Query.narrow
  cases w.limit <;> cases w.offset <;>
    exact ⟨h.source, h.joins, h.items, h.condition, h.groups, h.orders⟩

end IsStatement

end JsonSql
