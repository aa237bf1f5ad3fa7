import JsonSql.Proofs.Columns
import JsonSql.Proofs.Joins

set_option autoImplicit false

/-!
# The count of issued aliases

No step of a compilation takes an alias back, so whatever is issued on the way is issued at the end.
-/

namespace JsonSql

open JsonSql.Sql

/-- A step after which no fewer aliases are issued than before. -/
def Compile.Grows {α : Type} (x : Compile α) : Prop :=
  ∀ ⦃k a k'⦄, x.Gives k a k' → k ≤ k'

namespace Compile

variable {α β : Type}

theorem grows_pure (a : α) : Grows (pure a : Compile α) := by
  intro k b k' h
  exact Nat.le_of_eq (gives_pure.mp h).2.symm

theorem grows_throw (e : QueryError) : Grows (throw e : Compile α) := by
  intro _ _ _ h
  exact absurd h not_gives_throw

theorem grows_lift (x : Except QueryError α) : Grows (liftM x : Compile α) := by
  intro k a k' h
  exact Nat.le_of_eq (gives_lift.mp h).2.symm

theorem Grows.bind {x : Compile α} {f : α → Compile β} (hx : x.Grows)
    (hf : ∀ a, (f a).Grows) : (x >>= f).Grows := by
  intro k b k' h
  obtain ⟨a, k₁, ha, hb⟩ := gives_bind.mp h
  exact Nat.le_trans (hx ha) (hf a hb)

theorem Grows.map {x : Compile α} (hx : x.Grows) (f : α → β) : (f <$> x).Grows := by
  intro k b k' h
  obtain ⟨a, ha, -⟩ := gives_map.mp h
  exact hx ha

end Compile

open Compile

theorem grows_discriminator (r : Relation) (collection field : String) :
    (discriminator r collection field).Grows := by
  intro k column k' h
  exact Nat.le_of_eq (discriminator_gives.mp h).2.symm

namespace Context

variable {c : Context} {inner : Bool}

theorem grows_collection (name : String) : (c.collection name).Grows := by
  intro k info k' h
  exact Nat.le_of_eq (collection_gives.mp h).2.symm

theorem grows_primary (name : String) : (c.primary name).Grows :=
  (grows_collection name).map _

theorem grows_field (collection name : String) : (c.field collection name).Grows := by
  intro k f k' h
  exact Nat.le_of_eq (field_gives.mp h).2.symm

theorem grows_freshAlias : c.freshAlias.Grows := by
  intro k name k' h
  rw [(freshAlias_gives.mp h).2]
  exact Nat.le_succ k

/-! ## Joins -/

theorem grows_joinTarget (place : Place) (segment table : String) (link : Link) :
    (c.joinTarget place segment table link).Grows := by
  cases link with
  | none => exact grows_throw _
  | manyToOne r =>
    unfold joinTarget
    dsimp only
    split
    · exact grows_throw _
    · exact (grows_primary _).bind fun primary => grows_pure _
  | manyToAny r scope =>
    unfold joinTarget
    dsimp only
    split
    · exact grows_throw _
    · split
      · exact (grows_discriminator _ _ _).bind fun column =>
          (grows_primary _).bind fun primary => grows_pure _
      · exact grows_throw _
  | oneToMany r => exact (grows_primary _).bind fun primary => grows_pure _
  | oneToAny r =>
    exact (grows_discriminator _ _ _).bind fun column =>
      (grows_primary _).bind fun primary => grows_pure _

theorem grows_joinPath (collection : String) (scope : Scope) (path : List String) :
    (c.joinPath inner collection scope path).Grows := by
  intro k result k' h
  refine joinPath_keeps (P := fun _ count => k ≤ count) ?_ (Nat.le_refl k) h
  intro scope count before segment place target condition scope' count' hle hstep
  have hjoined := grows_joinTarget _ _ _ _ hstep.joined
  omega

theorem grows_joinFilter (collection : String) (parents : List String) (scope : Scope)
    (f : Filter) : (c.joinFilter inner collection parents scope f).Grows := by
  intro k result k' h
  refine joinFilter_keeps (P := fun _ count => k ≤ count) ?_ (Nat.le_refl k) h
  intro path scope count before segment place target condition scope' count' _ hle hstep
  have hjoined := grows_joinTarget _ _ _ _ hstep.joined
  omega

/-! ## Columns -/

theorem grows_countRows? (collection table : String) (link : Link) :
    (c.countRows? collection table link).Grows := by
  unfold countRows?
  refine (grows_primary _).bind fun primary => grows_freshAlias.bind fun name => ?_
  split
  · exact grows_pure _
  · split
    · exact grows_pure _
    · exact grows_pure _
  · exact grows_pure _

theorem grows_applyFunction (place : Place) (function path field : String) (type : FieldType) :
    (c.applyFunction place function path field type).Grows := by
  unfold applyFunction
  dsimp only
  split
  · exact grows_throw _
  · split
    · exact grows_pure _
    · exact grows_throw _
  · split
    · exact grows_lift _
    · refine (grows_countRows? _ _ _).bind fun found => ?_
      cases found with
      | none => exact grows_throw _
      | some e => exact grows_pure _

theorem grows_column (hops : Hops) (collection : String) (path : List String) :
    (c.column hops collection path).Grows := by
  unfold column
  dsimp only
  split
  · exact grows_throw _
  · refine (grows_lift _).bind fun place => (grows_field _ _).bind fun field => ?_
    split
    · split
      · exact (grows_throw _).bind fun _ => grows_pure _
      · exact grows_pure _
    · exact (grows_applyFunction _ _ _ _ _).bind fun e => grows_pure _

/-! ## Conditions -/

theorem grows_addFilter (collection : String) (scope : Scope) (f : Filter)
    {condition : Hops → Compile (Option Expr)} (hcondition : ∀ hops, (condition hops).Grows) :
    (c.addFilter inner collection scope f condition).Grows := by
  unfold addFilter restricted
  refine (grows_joinFilter _ _ _ _).bind fun joined => (hcondition _).bind fun e? => ?_
  cases e? with
  | none => exact grows_pure _
  | some e => exact grows_pure _

theorem grows_relatedKeys (collection : String) (link : Link) :
    (relatedKeys collection link).Grows := by
  cases link with
  | oneToMany r => exact grows_pure _
  | oneToAny r =>
    unfold relatedKeys
    dsimp only
    split
    · exact grows_throw _
    · exact grows_pure _
  | none => exact grows_throw _
  | manyToOne r => exact grows_throw _
  | manyToAny r scope => exact grows_throw _

theorem grows_existential (collection table : String) (link : Link) (quantifier : Quantifier)
    (f : Filter) {condition : String → Hops → Compile (Option Expr)}
    (hcondition : ∀ related hops, (condition related hops).Grows) :
    (c.existential collection table link quantifier f condition).Grows := by
  unfold existential amongKeys
  refine (grows_relatedKeys _ _).bind fun ⟨r, keys, polymorphic⟩ => ?_
  exact (grows_collection _).bind fun info =>
    (grows_addFilter _ _ _ (hcondition _)).bind fun scope =>
      (grows_primary _).bind fun primary => grows_pure _

mutual
/-- Building the condition of a filter takes no alias back. -/
theorem grows_condition? (hops : Hops) (collection : String) (parents : List String)
    (f : Filter) : (c.condition? hops collection parents f).Grows := by
  obtain ⟨clauses⟩ := f
  rw [condition?]
  exact (grows_clauseConditions hops collection parents clauses).map _

theorem grows_clauseConditions (hops : Hops) (collection : String) (parents : List String)
    (clauses : List Clause) : (c.clauseConditions hops collection parents clauses).Grows := by
  cases clauses with
  | nil =>
    rw [clauseConditions]
    exact grows_pure _
  | cons clause rest =>
    rw [clauseConditions]
    exact (grows_clauseCondition? hops collection parents clause).bind fun part =>
      (grows_clauseConditions hops collection parents rest).bind fun parts => grows_pure _

theorem grows_clauseCondition? (hops : Hops) (collection : String) (parents : List String)
    (clause : Clause) : (c.clauseCondition? hops collection parents clause).Grows := by
  cases clause with
  | all filters =>
    rw [clauseCondition?]
    exact (grows_groupConditions hops collection parents filters).map _
  | any filters =>
    rw [clauseCondition?]
    split
    · exact grows_pure _
    · exact (grows_groupConditions hops collection parents filters).map _
  | field key condition =>
    rw [clauseCondition?]
    exact grows_fieldCondition? hops collection parents key condition

theorem grows_groupConditions (hops : Hops) (collection : String) (parents : List String)
    (filters : List Filter) : (c.groupConditions hops collection parents filters).Grows := by
  cases filters with
  | nil =>
    rw [groupConditions]
    exact grows_pure _
  | cons f rest =>
    rw [groupConditions]
    exact (grows_condition? hops collection parents f).bind fun part =>
      (grows_groupConditions hops collection parents rest).bind fun parts => grows_pure _

theorem grows_fieldCondition? (hops : Hops) (collection : String) (parents : List String)
    (key : String) (condition : FieldCondition) :
    (c.fieldCondition? hops collection parents key condition).Grows := by
  cases condition with
  | compare comparisons =>
    rw [fieldCondition?]
    split
    · exact (grows_throw _).bind fun _ => (grows_column _ _ _).bind fun column => grows_lift _
    · exact (grows_column _ _ _).bind fun column => grows_lift _
  | nested f =>
    rw [fieldCondition?]
    split
    · exact (grows_existential _ _ _ _ _
        fun related hops => grows_condition? hops related [] f).map _
    · exact grows_condition? hops collection _ f
  | quantified quantifier f =>
    rw [fieldCondition?]
    split
    · exact (grows_existential _ _ _ _ _
        fun related hops => grows_condition? hops related [] f).map _
    · refine (grows_lift _).bind fun ⟨hop, link⟩ => ?_
      exact (grows_existential _ _ _ _ _
        fun related hops => grows_condition? hops related [] f).map _
end

end Context

end JsonSql
