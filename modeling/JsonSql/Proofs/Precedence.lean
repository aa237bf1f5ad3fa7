import JsonSql.Proofs.Compiled
import JsonSql.Proofs.ReadBack

set_option autoImplicit false

/-!
# Compiled conditions read back

Every condition of a compiled statement, of a join or of its rows and at any depth, reads back with
the truth value of its expression, and so does what is made of such conditions by adding them to a
statement one after another.
-/

namespace JsonSql

open JsonSql.Sql

namespace Sql

/-! ## The conditions of a query -/

mutual
/-- The conditions of the queries in an expression. -/
def Expr.conditions : Expr → List Expr
  | .column _ _ | .literal _ | .allColumns _ | .raw _ => []
  | .binary _ left right => left.conditions ++ right.conditions
  | .not inner => inner.conditions
  | .call _ args _ => exprsConditions args
  | .subquery query => query.conditions
  | .inList subject items _ => subject.conditions ++ exprsConditions items
  | .inQuery subject query _ => subject.conditions ++ query.conditions
  | .between subject low high _ => subject.conditions ++ low.conditions ++ high.conditions
  | .isNull subject _ => subject.conditions
  | .paren inner => inner.conditions
  | .cast subject _ => subject.conditions

/-- The conditions of the queries in expressions. -/
def exprsConditions : List Expr → List Expr
  | [] => []
  | e :: rest => e.conditions ++ exprsConditions rest

/-- The conditions of the queries in projections. -/
def itemsConditions : List Item → List Expr
  | [] => []
  | ⟨expr, _⟩ :: rest => expr.conditions ++ itemsConditions rest

/-- The conditions of joins, with those of the queries in them. -/
def joinsConditions : List Join → List Expr
  | [] => []
  | ⟨_, condition⟩ :: rest => condition :: condition.conditions ++ joinsConditions rest

/-- The conditions of the queries in orderings. -/
def ordersConditions : List OrderItem → List Expr
  | [] => []
  | ⟨expr, _⟩ :: rest => expr.conditions ++ ordersConditions rest

/-- A condition on rows, if there is one, with those of the queries in it. -/
def rowConditions : Option Expr → List Expr
  | none => []
  | some e => e :: e.conditions

/-- The conditions of a query on its joins and rows, and those of the queries in it. -/
def Query.conditions : Query → List Expr
  | ⟨items, _, joins, condition, groups, orders, _⟩ =>
    joinsConditions joins ++ rowConditions condition ++ itemsConditions items ++
      exprsConditions groups ++ ordersConditions orders
end

theorem exprsConditions_eq (es : List Expr) :
    exprsConditions es = es.flatMap Expr.conditions := by
  induction es with
  | nil => rfl
  | cons e rest ih => rw [exprsConditions, ih, List.flatMap_cons]

theorem itemsConditions_eq (items : List Item) :
    itemsConditions items = items.flatMap fun item => item.expr.conditions := by
  induction items with
  | nil => rfl
  | cons item rest ih =>
    cases item
    rw [itemsConditions, ih, List.flatMap_cons]

theorem ordersConditions_eq (orders : List OrderItem) :
    ordersConditions orders = orders.flatMap fun o => o.expr.conditions := by
  induction orders with
  | nil => rfl
  | cons o rest ih =>
    cases o
    rw [ordersConditions, ih, List.flatMap_cons]

end Sql

/-! ## Shapes read back -/

section Shapes

variable {d : Dialect} {names : List String} {e : Expr}

theorem isReadPredicate_equals {left right : Expr} (hl : OperandTokens (left.words d))
    (hr : OperandTokens (right.words d)) : (Expr.equals left right).IsReadPredicate d :=
  isReadPredicate_binary rfl hl hr

theorem IsLink.isReadable (h : IsLink names e) : e.IsReadable d := by
  cases h with
  | keys a b _ _ =>
    exact (isReadPredicate_equals (operandTokens_of ..) (operandTokens_of ..)).isReadable
  | polymorphic column field collection key _ _ =>
    refine .both (isReadPredicate_equals ?_ ?_).isReadable
      (isReadPredicate_equals ?_ ?_).isReadable rfl rfl
    · exact operandTokens_of ..
    · exact operandTokens_literal ..
    · exact operandTokens_of ..
    · exact operandTokens_cast ..

theorem IsColumn.operandTokens (h : IsColumn names e) : OperandTokens (e.words d) := by
  cases h with
  | plain name _ => exact operandTokens_of ..
  | part dialect part kind name _ =>
    cases dialect with
    | sqlite => exact operandTokens_cast ..
    | _ => exact operandTokens_call ..
  | jsonLength dialect name _ he =>
    cases dialect <;> cases he <;> exact operandTokens_call ..
  | count _ _ => exact operandTokens_subquery ..

theorem IsKey.operandTokens (h : IsKey names e) : OperandTokens (e.words d) := by
  cases h with
  | plain name _ => exact operandTokens_of ..
  | text name _ => exact operandTokens_cast ..

theorem IsPredicate.isReadable {column : Expr} (hcolumn : OperandTokens (column.words d))
    (h : IsPredicate column e) : e.IsReadable d := by
  cases h with
  | null negated => exact (isReadPredicate_isNull negated hcolumn).isReadable
  | compare value hop =>
    exact (isReadPredicate_binary hop hcolumn (operandTokens_literal value)).isReadable
  | compareLower value hop =>
    exact (isReadPredicate_binary hop (operandTokens_call ..)
      (operandTokens_literal value)).isReadable
  | oneOf values negated => exact (isReadPredicate_inList _ negated hcolumn).isReadable
  | between low high negated =>
    exact (isReadPredicate_between negated hcolumn (operandTokens_literal low)
      (operandTokens_literal high)).isReadable
  | @intersects dialect geojson boxes negated e he =>
    have hcall : e.IsReadPredicate d := by
      cases dialect <;> cases boxes <;> cases he <;> exact isReadPredicate_call ..
    cases negated with
    | false => exact hcall.isReadable
    | true => exact hcall.readsOne.not.isReadable

/-- Every condition reads back, since only alternatives in brackets are joined by conjunctions. -/
theorem IsCondition.isReadable (h : IsCondition names e) : e.IsReadable d := by
  induction h with
  | predicate hcolumn he => exact he.isReadable hcolumn.operandTokens
  | never names =>
    exact (isReadPredicate_equals (operandTokens_literal _) (operandTokens_literal _)).isReadable
  | both _ _ hld hrd ihl ihr => exact ihl.both ihr hld hrd
  | either _ _ ihl ihr => exact ihl.either ihr
  | paren _ ih => exact ih.paren
  | existential collection field negated hkey _ _ _ =>
    exact (isReadPredicate_inQuery _ negated hkey.operandTokens).isReadable

end Shapes

/-! ## Conditions at any depth -/

/-- A condition on rows of some tables, or one under which two tables are joined. -/
def IsRestriction (e : Expr) : Prop :=
  (∃ names, IsCondition names e) ∨ ∃ names, IsLink names e

theorem IsRestriction.isReadable {d : Dialect} {e : Expr} (h : IsRestriction e) :
    e.IsReadable d := by
  rcases h with ⟨names, h⟩ | ⟨names, h⟩
  · exact h.isReadable
  · exact h.isReadable

section Depths

variable {names : List String} {e inner : Expr}

-- each of these unfolds one case
attribute [local simp] Expr.conditions exprsConditions

theorem IsLink.conditions_eq_nil (h : IsLink names e) : e.conditions = [] := by
  cases h <;> rfl

theorem AreLinked.isRestriction {joins : List Join} (h : AreLinked names joins)
    (hinner : inner ∈ joinsConditions joins) : IsRestriction inner := by
  induction joins generalizing names with
  | nil => cases hinner
  | cons join rest ih =>
    obtain ⟨target, condition⟩ := join
    obtain ⟨hcondition, hrest⟩ := h
    rw [joinsConditions, hcondition.conditions_eq_nil] at hinner
    rcases List.mem_cons.mp hinner with rfl | hinner
    · exact .inr ⟨_, hcondition⟩
    · exact ih hrest hinner

theorem IsCount.isRestriction {table : String} {q : Query} (h : IsCount table q)
    (hinner : inner ∈ q.conditions) : IsRestriction inner := by
  cases h with
  | mk collection name hcondition =>
    simp only [Query.conditions, joinsConditions, rowConditions, hcondition.conditions_eq_nil,
      itemsConditions, exprsConditions, ordersConditions, Expr.countRows, Expr.count, Expr.apply,
      Expr.conditions, List.append_nil, List.nil_append, List.mem_singleton] at hinner
    rw [hinner]
    exact .inr ⟨_, hcondition⟩

theorem IsColumn.isRestriction (h : IsColumn names e) (hinner : inner ∈ e.conditions) :
    IsRestriction inner := by
  cases h with
  | plain name _ => cases hinner
  | part d part kind name _ => cases d <;> cases kind <;> cases hinner
  | jsonLength d name _ he => cases d <;> cases he <;> cases hinner
  | count _ hq => exact hq.isRestriction hinner

theorem IsKey.conditions_eq_nil (h : IsKey names e) : e.conditions = [] := by
  cases h <;> rfl

theorem IsPredicate.mem_conditions {column : Expr} (h : IsPredicate column e)
    (hinner : inner ∈ e.conditions) : inner ∈ column.conditions := by
  cases h with
  | null negated => exact hinner
  | compare value _ => simpa using hinner
  | compareLower value _ =>
    simpa [Expr.lower, Expr.apply] using hinner
  | oneOf values negated =>
    rcases List.mem_append.mp hinner with hinner | hinner
    · exact hinner
    · rw [exprsConditions_eq, List.mem_flatMap] at hinner
      obtain ⟨outer, houter, he⟩ := hinner
      obtain ⟨value, -, rfl⟩ := List.mem_map.mp houter
      cases he
  | between low high negated => simpa using hinner
  | @intersects d geojson boxes negated e he =>
    have hcall : inner ∈ e.conditions := by
      cases negated <;> exact hinner
    cases d <;> cases boxes <;> cases he <;>
      simpa [Dialect.geometry, Expr.apply, Expr.string]
        using hcall

theorem IsCondition.isRestriction (h : IsCondition names e) (hinner : inner ∈ e.conditions) :
    IsRestriction inner := by
  induction h with
  | predicate hcolumn he => exact hcolumn.isRestriction (he.mem_conditions hinner)
  | never names => cases hinner
  | both _ _ _ _ ihl ihr => exact (List.mem_append.mp hinner).elim ihl ihr
  | either _ _ ihl ihr => exact (List.mem_append.mp hinner).elim ihl ihr
  | paren _ ih => exact ih hinner
  | @existential names key condition joins collection field negated hkey hjoins hcondition ih =>
    rw [Expr.conditions, hkey.conditions_eq_nil, List.nil_append] at hinner
    have hcases : inner ∈ joinsConditions joins ∨ inner = condition ∨
        inner ∈ condition.conditions := by
      simpa [Query.conditions, rowConditions, itemsConditions, ordersConditions,
        Expr.of] using hinner
    rcases hcases with hinner | rfl | hinner
    · exact hjoins.isRestriction hinner
    · exact .inl ⟨_, hcondition⟩
    · exact ih hinner

theorem IsItem.isRestriction (h : IsItem names e) (hinner : inner ∈ e.conditions) :
    IsRestriction inner := by
  cases h with
  | table _ => cases hinner
  | column he => exact he.isRestriction hinner
  | rows => cases hinner
  | @aggregation e a he =>
    refine he.isRestriction ?_
    cases a <;> simpa [Aggregation.apply, Expr.count, Expr.countDistinct, Expr.apply] using hinner

theorem IsStatement.isRestriction {collection : String} {q : Query}
    (h : IsStatement collection q) (hinner : inner ∈ q.conditions) : IsRestriction inner := by
  obtain ⟨items, source, joins, condition, groups, orders, window⟩ := q
  simp only [Query.conditions, itemsConditions_eq, exprsConditions_eq, ordersConditions_eq,
    List.mem_append, List.mem_flatMap] at hinner
  rcases hinner with (((hinner | hinner) | ⟨item, hitem, hinner⟩) | ⟨e, he, hinner⟩) |
    ⟨o, ho, hinner⟩
  · exact h.joins.isRestriction hinner
  · cases condition with
    | none => cases hinner
    | some e =>
      have he := h.condition e rfl
      rcases List.mem_cons.mp hinner with rfl | hinner
      · exact .inl ⟨_, he⟩
      · exact he.isRestriction hinner
  · exact (h.items item hitem).isRestriction hinner
  · exact (h.groups e he).isRestriction hinner
  · exact (h.orders o ho).isRestriction hinner

end Depths

/-! ## Compiled statements -/

/-- A condition of some compiled statement, at any depth. -/
def IsCompiledCondition (e : Expr) : Prop :=
  ∃ (s : Schema) (options : Options) (names : Nat → String) (collection : String) (r : Request)
    (q : Query),
    Compiler.compile { provider := s.provider, options, names } collection r = .ok q ∧
      e ∈ q.conditions

theorem IsCompiledCondition.isReadable {d : Dialect} {e : Expr} (h : IsCompiledCondition e) :
    e.IsReadable d := by
  obtain ⟨s, options, names, collection, r, q, hq, he⟩ := h
  exact ((isStatement_of_compile hq).isRestriction he).isReadable

theorem truth_guarded (d : Dialect) (v : List Token → Truth) (e : Expr) :
    e.guarded.truth d v = e.truth d v := by
  unfold Expr.guarded
  split <;> rfl

/-- Conditions added to a statement one after another hold together. -/
theorem isReadable_addConditions {d : Dialect} {es : List Expr} {q : Query} {old : Expr}
    (hold : q.condition = some old) (hread : old.IsReadable d)
    (hes : ∀ e ∈ es, e.IsReadable d) :
    ∃ e, (es.foldl Query.addCondition q).condition = some e ∧ e.IsReadable d ∧
      ∀ v, e.truth d v = (old.truth d v).and (Truth.all (es.map fun e => e.truth d v)) := by
  induction es generalizing q old with
  | nil => exact ⟨old, hold, hread, fun v => by simp⟩
  | cons e rest ih =>
    have he := hes e List.mem_cons_self
    have hboth : (Expr.both old.guarded e.guarded).IsReadable d :=
      hread.guarded.both he.guarded old.isDisjunction_guarded e.isDisjunction_guarded
    have hcondition : (q.addCondition e).condition = some (.both old.guarded e.guarded) := by
      rw [Query.addCondition, hold]
    obtain ⟨final, hfinal, hreadable, htruth⟩ :=
      ih hcondition hboth fun f hf => hes f (List.mem_cons_of_mem _ hf)
    refine ⟨final, hfinal, hreadable, fun v => ?_⟩
    have hvalue : (Expr.both old.guarded e.guarded).truth d v =
        (old.truth d v).and (e.truth d v) := by
      rw [← truth_guarded d v old, ← truth_guarded d v e]
      rfl
    rw [htruth, hvalue, List.map_cons, Truth.all_cons, Truth.and_assoc]

/-- Readable conditions added to a statement read back as the conjunction of all of them. -/
theorem readsAs_addConditions {d : Dialect} {target : Query} {added : List Expr}
    (hread : ∀ e ∈ target.condition.toList ++ added, e.IsReadable d)
    (hne : target.condition.toList ++ added ≠ []) :
    ∃ e, (added.foldl Query.addCondition target).condition = some e ∧
      e.ReadsAs d fun v =>
        Truth.all ((target.condition.toList ++ added).map fun e => e.truth d v) := by
  -- the first condition starts the conjunction, in brackets if the statement had none
  have hstart : ∃ (q : Query) (old : Expr) (rest : List Expr), q.condition = some old ∧
      old.IsReadable d ∧ (∀ e ∈ rest, e.IsReadable d) ∧
      added.foldl Query.addCondition target = rest.foldl Query.addCondition q ∧
      ∀ v, Truth.all ((target.condition.toList ++ added).map fun e => e.truth d v) =
        (old.truth d v).and (Truth.all (rest.map fun e => e.truth d v)) := by
    cases hold : target.condition with
    | some old =>
      rw [hold] at hread
      exact ⟨target, old, added, hold, hread old List.mem_cons_self,
        fun e he => hread e (List.mem_cons_of_mem _ he), rfl, fun v => rfl⟩
    | none =>
      rw [hold] at hread hne
      cases added with
      | nil => exact absurd rfl hne
      | cons e rest =>
        refine ⟨target.addCondition e, e.guarded, rest, ?_, (hread e List.mem_cons_self).guarded,
          fun f hf => hread f (List.mem_cons_of_mem _ hf), rfl, fun v => ?_⟩
        · rw [Query.addCondition, hold]
        · rw [truth_guarded]
          rfl
  obtain ⟨q, old, rest, hold, holdread, hrest, hfold, hall⟩ := hstart
  obtain ⟨e, he, hreadable, htruth⟩ := isReadable_addConditions hold holdread hrest
  obtain ⟨formula, hformula, hvalue⟩ := hreadable.readsAs
  refine ⟨e, by rw [hfold, he], formula, hformula, fun v => ?_⟩
  exact (hvalue v).trans ((htruth v).trans (hall v).symm)

/-- Every condition of a compiled statement reads back with the truth value of its expression, and
compiled conditions that are added to a statement read back as the conjunction of all of them. -/
theorem conditions_read_back {s : Schema} {options : Options} {names : Nat → String}
    {collection : String} {r : Request} {q : Query}
    (h : Compiler.compile { provider := s.provider, options, names } collection r = .ok q)
    (d : Dialect) :
    (∀ e ∈ q.conditions, e.ReadsAs d fun v => e.truth d v) ∧
      ∀ (target : Query) (added : List Expr),
        (∀ e ∈ target.condition.toList ++ added, IsCompiledCondition e) →
        target.condition.toList ++ added ≠ [] →
        ∃ e, (added.foldl Query.addCondition target).condition = some e ∧
          e.ReadsAs d fun v =>
            Truth.all ((target.condition.toList ++ added).map fun e => e.truth d v) := by
  refine ⟨fun e he => ?_, fun target added hcompiled hne => ?_⟩
  · exact ((isStatement_of_compile h).isRestriction he).isReadable.readsAs
  · exact readsAs_addConditions (fun e he => (hcompiled e he).isReadable) hne

/-- The condition of a statement on its rows is one of its conditions. -/
theorem mem_conditions {q : Query} {e : Expr} (h : q.condition = some e) : e ∈ q.conditions := by
  obtain ⟨items, source, joins, condition, groups, orders, window⟩ := q
  cases h
  simp [Query.conditions, rowConditions]

theorem conditions_read_back_blog :
    ∃ q e all, (Compiler.blog .mysql).compile "articles" Request.blog = .ok q ∧
      q.condition = some e ∧ (e.ReadsAs .mysql fun v => e.truth .mysql v) ∧
      (q.addCondition e).condition = some all ∧
      all.ReadsAs .mysql fun v => Truth.all [e.truth .mysql v, e.truth .mysql v] := by
  obtain ⟨q, hq⟩ := exists_compile_blog .mysql
  have hsome : (((Compiler.blog .mysql).compile "articles" Request.blog).toOption.bind
      fun q => q.condition).isSome = true := by decide +kernel
  rw [hq] at hsome
  obtain ⟨e, he⟩ := Option.isSome_iff_exists.mp hsome
  have hcondition : q.condition = some e := he
  have hcompiled : IsCompiledCondition e := ⟨_, _, _, _, _, q, hq, mem_conditions hcondition⟩
  have hread := conditions_read_back hq .mysql
  obtain ⟨all, hall, hreads⟩ := hread.2 q [e] (by simp [hcondition, hcompiled]) (by simp)
  rw [hcondition] at hreads
  exact ⟨q, e, all, hq, hcondition, hread.1 e (mem_conditions hcondition), hall, hreads⟩

end JsonSql
