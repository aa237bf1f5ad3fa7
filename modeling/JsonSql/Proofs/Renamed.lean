import JsonSql.Proofs.Senses

set_option autoImplicit false

/-!
# Conditions under other names

One filter compiled twice, with other aliases and on statements with other joins besides, gives
conditions with the same truth values wherever the tables in scope have the same rows
(`truthOn_condition?_same`): the tables of both stand for the same rows at paths, of which the filter
asks one thing.
-/

namespace JsonSql

open JsonSql.Sql

variable {E : Engine} {s : Schema} {db : Database E} {options : Options}
  {names names' : Nat → String} {collection : String} {declared : Collection}
  {tables tables' : Tables E} {hops hops' : Hops} {k j k' j' : Nat}

/-- Two compilations of parts of statements on a collection: the joins that each has recorded, and
tables in scope with the same rows. -/
structure Paired (s : Schema) (options : Options) (names names' : Nat → String)
    (collection : String) (hops : Hops) (k : Nat) (hops' : Hops) (j : Nat)
    (tables tables' : Tables E) : Prop where
  led : hops.Led (s.context options names) collection k
  led' : hops'.Led (s.context options names') collection j
  rows : SameRows collection hops hops' tables tables'

namespace Paired

theorem mono {k₁ j₁ : Nat}
    (h : Paired s options names names' collection hops k hops' j tables tables') (hk : k ≤ k₁)
    (hj : j ≤ j₁) : Paired s options names names' collection hops k₁ hops' j₁ tables tables' :=
  ⟨h.led.mono hk, h.led'.mono hj, h.rows⟩

end Paired

/-- Tables with the same rows stand for the same rows at paths. -/
theorem SameRows.exists_places (h : SameRows collection hops hops' tables tables') :
    ∃ rows : Placed E, Places collection hops tables rows ∧ Places collection hops' tables' rows := by
  let rows : Placed E := fun path =>
    if path = [] then rowOf tables collection
    else match hops.get? path, hops'.get? path with
      | some hop, _ => rowOf tables hop.name
      | none, some hop' => rowOf tables' hop'.name
      | none, none => nullRow E
  refine ⟨rows, ⟨(if_pos rfl).symm, fun path hop hne _ hfound => ?_⟩,
    ⟨h.root.symm.trans (if_pos rfl).symm, fun path hop' hne _ hfound' => ?_⟩⟩
  · simp only [rows, if_neg hne, hfound]
  · cases hfound : hops.get? path with
    | none => simp only [rows, if_neg hne, hfound, hfound']
    | some hop =>
      simp only [rows, if_neg hne, hfound]
      exact (h.hop path hop hop' hfound hfound').2.symm

/-- Conditions with the same truth value are met alike. -/
theorem meets_eq_of_truthOn {e? e'? : Option Expr}
    (h : e?.map (Expr.truthOn db tables) = e'?.map (Expr.truthOn db tables')) :
    meets db tables e? = meets db tables' e'? := by
  rw [Bool.eq_iff_iff, meets_iff, meets_iff, h]

/-- Two compilations of a filter give conditions with the same truth value on the same rows. -/
theorem truthOn_condition?_same {f : Filter} {e? e'? : Option Expr}
    (hinjective : Function.Injective names) (hinjective' : Function.Injective names')
    (hf : f.IsUnfolded) (hc : s.collection? collection = some declared)
    (havoids : s.AvoidsAliases names k') (havoids' : s.AvoidsAliases names' j')
    (hpaired : Paired s options names names' collection hops k hops' j tables tables')
    (h : ((s.context options names).condition? hops collection [] f).Gives k e? k')
    (h' : ((s.context options names').condition? hops' collection [] f).Gives j e'? j') :
    e?.map (Expr.truthOn db tables) = e'?.map (Expr.truthOn db tables') := by
  obtain ⟨rows, hplaces, hplaces'⟩ := hpaired.rows.exists_places
  rw [truthOn_condition?_sense hinjective [] isPath_nil f hf hc havoids hpaired.led hplaces h,
    truthOn_condition?_sense hinjective' [] isPath_nil f hf hc havoids' hpaired.led' hplaces' h']

/-- So do two compilations of clauses. -/
theorem truthOn_clauseConditions_same {clauses : List Clause} {parts parts' : List Expr}
    (hinjective : Function.Injective names) (hinjective' : Function.Injective names')
    (hf : AreUnfoldedClauses clauses) (hc : s.collection? collection = some declared)
    (havoids : s.AvoidsAliases names k') (havoids' : s.AvoidsAliases names' j')
    (hpaired : Paired s options names names' collection hops k hops' j tables tables')
    (h : ((s.context options names).clauseConditions hops collection [] clauses).Gives k parts k')
    (h' : ((s.context options names').clauseConditions hops' collection [] clauses).Gives j
      parts' j') :
    parts.map (Expr.truthOn db tables) = parts'.map (Expr.truthOn db tables') := by
  obtain ⟨rows, hplaces, hplaces'⟩ := hpaired.rows.exists_places
  rw [truthOn_clauseConditions_sense hinjective [] isPath_nil clauses hf hc havoids hpaired.led
      hplaces h,
    truthOn_clauseConditions_sense hinjective' [] isPath_nil clauses hf hc havoids' hpaired.led'
      hplaces' h']

end JsonSql
