import JsonSql.Proofs.Comparisons
import JsonSql.Proofs.Leaves
import Mathlib.Data.List.Forall2

set_option autoImplicit false

/-!
# What conditions depend on

A condition of a compiled statement depends on the rows of the tables that it may refer to and on
nothing else in scope; its predicates depend on the values of their columns only.  So the statement
of an existential condition gives the same keys wherever it stands.
-/

namespace JsonSql

open JsonSql.Calendar
open JsonSql.Sql

variable {E : Engine} {db db' : Database E} {tables tables' : Tables E} {names : List String}

/-! ## Predicates and columns -/

/-- A condition combines the truth values of its predicates. -/
theorem truthOn_eq_of_predicates {e : Expr}
    (h : ∀ p ∈ e.predicates, p.truthOn db tables = p.truthOn db' tables') :
    e.truthOn db tables = e.truthOn db' tables' := by
  fun_induction Expr.predicates e with
  | case1 left right ihleft ihright =>
    have hleft := ihleft fun p hp => h p (List.mem_append_left _ hp)
    have hright := ihright fun p hp => h p (List.mem_append_right _ hp)
    exact (truthOn_both db tables left right).trans
      (by rw [hleft, hright, ← truthOn_both, Expr.both])
  | case2 left right ihleft ihright =>
    have hleft := ihleft fun p hp => h p (List.mem_append_left _ hp)
    have hright := ihright fun p hp => h p (List.mem_append_right _ hp)
    exact (truthOn_either db tables left right).trans
      (by rw [hleft, hright, ← truthOn_either, Expr.either])
  | case3 inner ih =>
    rw [truthOn_paren, truthOn_paren]
    exact ih h
  | case4 e => exact h e (List.mem_singleton_self e)

/-- A predicate depends on the value of its column only. -/
theorem IsPredicate.truthOn_eq {column e : Expr} (h : IsPredicate column e)
    (hvalue : column.value db [] tables = column.value db' [] tables') :
    e.truthOn db tables = e.truthOn db' tables' := by
  cases h with
  | null negated => rw [truthOn_isNull, truthOn_isNull, hvalue]
  | compare value _ => simp only [truthOn_binary, value_literal, hvalue]
  | compareLower value _ => simp only [truthOn_binary, value_literal, value_lower, hvalue]
  | oneOf values negated =>
    simp only [truthOn_inList, List.map_map, Function.comp_def, value_literal, hvalue]
  | between low high negated => simp only [truthOn_between, value_literal, hvalue]
  | @intersects d geojson boxes negated e he =>
    rw [truthOn_negatedIf, truthOn_negatedIf, truthOn_intersects? he, truthOn_intersects? he,
      hvalue]

/-- A part of a date or time depends on the date or time only. -/
theorem value_datePart_eq (d : Dialect) (part : DatePart) (kind : DateKind) {e e' : Expr}
    (hvalue : e.value db [] tables = e'.value db' [] tables') :
    (d.datePart part kind e).value db [] tables =
      (d.datePart part kind e').value db' [] tables' := by
  have hcall {name : String} {args args' : List Expr}
      (hname : Engine.aggregates.contains name = false)
      (hargs : args.map (Expr.value db [] tables) = args'.map (Expr.value db' [] tables')) :
      (Expr.apply name args).value db [] tables = (Expr.apply name args').value db' [] tables' := by
    rw [value_apply db tables hname, value_apply db' tables' hname, hargs]
  cases d with
  | postgres | duckdb => exact hcall rfl (by simp [Expr.string, hvalue])
  | mysql => exact hcall (by cases part <;> rfl) (by simp [hvalue])
  | tsql => exact hcall rfl (by simp [Expr.value, hvalue])
  | sqlite =>
    rw [Dialect.datePart, Dialect.datePart, value_cast, value_cast]
    refine congrArg (Option.bind · (E.cast .integer)) (hcall rfl ?_)
    cases kind <;> simp [Expr.string, Expr.int, Expr.value, hvalue]

theorem value_jsonArrayLength?_eq {d : Dialect} {e e' length length' : Expr}
    (h : d.jsonArrayLength? e = some length) (h' : d.jsonArrayLength? e' = some length')
    (hvalue : e.value db [] tables = e'.value db' [] tables') :
    length.value db [] tables = length'.value db' [] tables' := by
  have hcall {name : String} (hname : Engine.aggregates.contains name = false) :
      (Expr.apply name [e]).value db [] tables = (Expr.apply name [e']).value db' [] tables' := by
    rw [value_apply db tables hname, value_apply db' tables' hname, List.map_singleton,
      List.map_singleton, hvalue]
  cases d <;> cases h <;> cases h' <;> exact hcall rfl

/-! ## Tables that agree -/

/-- The tables in scope have the same rows under some names. -/
def AgreeOn (names : List String) (tables tables' : Tables E) : Prop :=
  ∀ name ∈ names, rowOf tables name = rowOf tables' name

theorem AgreeOn.mono {more : List String} (h : AgreeOn more tables tables')
    (hsub : names ⊆ more) : AgreeOn names tables tables' := by
  intro name hname
  exact h name (hsub hname)

/-- One more row in front of both. -/
theorem AgreeOn.cons (h : AgreeOn names tables tables') (name : String) (row : Row E) :
    AgreeOn (name :: names) ((name, row) :: tables) ((name, row) :: tables') := by
  intro other hother
  by_cases hsame : other = name
  · rw [hsame, rowOf_cons_self, rowOf_cons_self]
  · rw [rowOf_cons_of_ne hsame, rowOf_cons_of_ne hsame]
    exact h other ((List.mem_cons.mp hother).resolve_left hsame)

theorem AgreeOn.value_of (h : AgreeOn names tables tables') {table : String}
    (htable : table ∈ names) (name : String) :
    (Expr.of table name).value db [] tables = (Expr.of table name).value db' [] tables' := by
  rw [JsonSql.Sql.value_of, JsonSql.Sql.value_of, h table htable]

theorem IsLink.truthOn_eq {e : Expr} (h : IsLink names e) (hagree : AgreeOn names tables tables') :
    e.truthOn db tables = e.truthOn db tables' := by
  cases h with
  | keys a b ht hu => simp only [truthOn_equals, value_of, hagree _ ht, hagree _ hu]
  | polymorphic discriminator field collection key ht hu =>
    simp only [refersTo, truthOn_both, truthOn_equals, value_cast, value_of, value_string,
      hagree _ ht, hagree _ hu]

theorem IsCount.value_eq {table : String} {q : Query} (h : IsCount table q)
    (hagree : AgreeOn [table] tables tables') :
    (Expr.subquery q).value db [] tables = (Expr.subquery q).value db [] tables' := by
  cases h with
  | @mk collection name condition hlink =>
    have hmeets (row : Row E) : meets db ((name, row) :: tables) (some condition) =
        meets db ((name, row) :: tables') (some condition) := by
      rw [Bool.eq_iff_iff, meets_eq_true, meets_eq_true, hlink.truthOn_eq (hagree.cons name row)]
    rw [value_countRows, value_countRows, List.filter_congr fun row _ => hmeets row]

theorem IsColumn.value_eq {e : Expr} (h : IsColumn names e)
    (hagree : AgreeOn names tables tables') :
    e.value db [] tables = e.value db [] tables' := by
  cases h with
  | plain name ht => exact hagree.value_of ht name
  | part d part kind name ht => exact value_datePart_eq d part kind (hagree.value_of ht name)
  | jsonLength d name ht he => exact value_jsonArrayLength?_eq he he (hagree.value_of ht name)
  | count ht hq =>
    refine hq.value_eq (hagree.mono ?_)
    exact List.cons_subset.mpr ⟨ht, List.nil_subset _⟩

theorem IsKey.value_eq {e : Expr} (h : IsKey names e) (hagree : AgreeOn names tables tables') :
    e.value db [] tables = e.value db [] tables' := by
  cases h with
  | plain name ht => exact hagree.value_of ht name
  | text name ht => rw [value_cast, value_cast, hagree.value_of ht name]

/-! ## Joined rows that agree -/

/-- Joins put rows beside rows that agree that agree on their own tables as well. -/
theorem AreLinked.forall₂_joinTables {joins : List Join} (h : AreLinked names joins)
    (hagree : AgreeOn names tables tables') :
    List.Forall₂ (AgreeOn (joinNames joins ++ names)) (joinTables db tables joins)
      (joinTables db tables' joins) := by
  induction joins generalizing names tables tables' with
  | nil =>
    rw [joinTables_nil, joinTables_nil]
    exact .cons hagree .nil
  | cons join rest ih =>
    obtain ⟨target, condition⟩ := join
    obtain ⟨hlink, hrest⟩ := h
    have hnext (row : Row E) := hagree.cons target.referenceName row
    have hrows : ((db target.table).filter fun row =>
        meets db ((target.referenceName, row) :: tables) (some condition)) =
        (db target.table).filter fun row =>
          meets db ((target.referenceName, row) :: tables') (some condition) := by
      refine List.filter_congr fun row _ => ?_
      rw [Bool.eq_iff_iff, meets_eq_true, meets_eq_true, hlink.truthOn_eq (hnext row)]
    have hjoined (rows : List (Row E)) : List.Forall₂ (AgreeOn (target.referenceName :: names))
        (rows.map fun row => (target.referenceName, row) :: tables)
        (rows.map fun row => (target.referenceName, row) :: tables') := by
      rw [List.forall₂_map_left_iff, List.forall₂_map_right_iff, List.forall₂_same]
      exact fun row _ => hnext row
    rw [joinTables, joinTables, join_tables_eq, join_tables_eq, hrows]
    refine List.rel_flatMap (hjoined _) fun _ _ hboth => (ih hrest hboth).imp ?_
    intro _ _ hall
    refine hall.mono fun name hname => ?_
    simp only [joinNames, List.map_cons, List.cons_append, List.mem_cons, List.mem_append]
      at hname ⊢
    tauto

/-- Items that correspond are kept alike and give the same results. -/
theorem map_filter_eq_of_forall₂ {α β γ : Type*} {R : α → β → Prop} {p : α → Bool} {q : β → Bool}
    {f : α → γ} {g : β → γ} {items : List α} {others : List β}
    (h : List.Forall₂ R items others) (hkept : ∀ a b, R a b → p a = q b)
    (hresult : ∀ a b, R a b → f a = g b) : (items.filter p).map f = (others.filter q).map g := by
  induction h with
  | nil => rfl
  | @cons a b rest rest' hab _ ih =>
    rw [List.filter_cons, List.filter_cons, hkept a b hab]
    split
    · rw [List.map_cons, List.map_cons, hresult a b hab, ih]
    · exact ih

/-- A statement that selects a column of its own table gives the same values wherever it stands. -/
theorem output_of_eq {collection field : String} {joins : List Join} {condition : Option Expr}
    (hjoins : AreLinked [collection] joins)
    (hcondition : ∀ t t' : Tables E, AgreeOn (joinNames joins ++ [collection]) t t' →
      meets db t condition = meets db t' condition) (outer outer' : Tables E) :
    Query.output db outer ⟨[⟨.of collection field, none⟩], some ⟨collection, none⟩, joins,
        condition, [], [], none⟩ =
      Query.output db outer' ⟨[⟨.of collection field, none⟩], some ⟨collection, none⟩, joins,
        condition, [], [], none⟩ := by
  have hnone : AgreeOn [] outer outer' := fun name hname => (by cases hname)
  have hrows : List.Forall₂ (AgreeOn (joinNames joins ++ [collection]))
      ((db collection).flatMap fun row => joinTables db ((collection, row) :: outer) joins)
      ((db collection).flatMap fun row => joinTables db ((collection, row) :: outer') joins) := by
    refine List.rel_flatMap (List.forall₂_same.mpr fun row _ => rfl) ?_
    rintro row _ rfl
    exact hjoins.forall₂_joinTables (hnone.cons collection row)
  rw [output_select db outer rfl, output_select db outer' rfl]
  refine map_filter_eq_of_forall₂ hrows hcondition fun t t' hagree => ?_
  have hvalue : (Expr.of collection field).value db [] t =
      (Expr.of collection field).value db [] t' :=
    hagree.value_of (List.mem_append_right _ (List.mem_singleton_self collection)) field
  exact congrArg (fun v => [Cell.value v]) hvalue

/-! ## Conditions -/

/-- A condition depends on the tables that it may refer to only. -/
theorem IsCondition.truthOn_eq {e : Expr} (h : IsCondition names e)
    (hagree : AgreeOn names tables tables') : e.truthOn db tables = e.truthOn db tables' := by
  induction h generalizing tables tables' with
  | predicate hcolumn he => exact he.truthOn_eq (hcolumn.value_eq hagree)
  | never names =>
    rw [truthOn_equals, truthOn_equals, Expr.int, Expr.int]
    simp only [value_literal]
  | both _ _ _ _ ihl ihr => rw [truthOn_both, truthOn_both, ihl hagree, ihr hagree]
  | either _ _ ihl ihr => rw [truthOn_either, truthOn_either, ihl hagree, ihr hagree]
  | paren _ ih => rw [truthOn_paren, truthOn_paren, ih hagree]
  | existential collection field negated hkey hjoins _ ih =>
    rw [truthOn_inQuery, truthOn_inQuery, hkey.value_eq hagree]
    refine congrArg (fun rows => (E.isAmong _ (rows.map firstValue)).negatedIf negated)
      (output_of_eq hjoins (fun t t' hsame => ?_) tables tables')
    rw [Bool.eq_iff_iff, meets_eq_true, meets_eq_true, ih hsame]

end JsonSql
