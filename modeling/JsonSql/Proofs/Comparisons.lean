import JsonSql.Proofs.Columns
import JsonSql.Proofs.Meaning

set_option autoImplicit false

/-!
# Comparisons keep their meaning

The predicate of a comparison has, on every row, the truth value that the comparison has on the
value of the column, and a comparison that is left out has none.  Conjunctions and disjunctions of
conditions have the truth values of their parts together.
-/

namespace JsonSql

open JsonSql.Sql

variable {E : Engine} {db : Database E} {tables : Tables E}

/-! ## Groups of conditions -/

theorem truthOn_foldl_both (first : Expr) (rest : List Expr) :
    (rest.foldl (fun all part => .both all.guarded part.guarded) first).truthOn db tables =
      Truth.all ((first :: rest).map (Expr.truthOn db tables)) := by
  induction rest generalizing first with
  | nil => simp
  | cons next rest ih => simp [ih, Truth.and_assoc]

theorem truthOn_foldl_either (first : Expr) (rest : List Expr) :
    (rest.foldl .either first).truthOn db tables =
      Truth.any ((first :: rest).map (Expr.truthOn db tables)) := by
  induction rest generalizing first with
  | nil => simp [Truth.any]
  | cons next rest ih =>
    rw [List.foldl_cons, ih]
    simp [Truth.any, Truth.or_assoc]

theorem truthOn_conjunction? (parts : List Expr) :
    (conjunction? parts).map (Expr.truthOn db tables) =
      Truth.all? (parts.map (Expr.truthOn db tables)) := by
  cases parts with
  | nil => rfl
  | cons first rest => exact congrArg some (truthOn_foldl_both first rest)

theorem truthOn_disjunction? (parts : List Expr) :
    (disjunction? parts).map (Expr.truthOn db tables) =
      Truth.any? (parts.map (Expr.truthOn db tables)) := by
  cases parts with
  | nil => rfl
  | cons first rest => exact congrArg some (truthOn_foldl_either first rest)

/-! ## Operators -/

theorem value_lower (e : Expr) :
    e.lower.value db [] tables = E.folded true (e.value db [] tables) :=
  value_apply db tables rfl [e]

theorem value_string (s : String) : (Expr.string s).value db [] tables = E.text s :=
  value_literal db tables (.string s)

theorem truthOn_negatedIf (negated : Bool) (e : Expr) :
    (Operator.negatedIf negated e).truthOn db tables =
      (e.truthOn db tables).negatedIf negated := by
  cases negated with
  | false => rfl
  | true => exact truthOn_not db tables e

/-- The condition that geometries meet. -/
theorem truthOn_intersects? {d : Dialect} {column e : Expr} {geojson : String} {boxes : Bool}
    (h : d.intersects? column geojson boxes = some e) :
    e.truthOn db tables = E.geometriesMeet d boxes (column.value db [] tables) geojson := by
  have hshape : (Dialect.geometry geojson).value db [] tables =
      E.call "ST_GeomFromGeoJSON" [E.text geojson] :=
    value_apply db tables rfl [.string geojson]
  have henvelope (e : Expr) : (Expr.apply "ST_Envelope" [e]).value db [] tables =
      E.call "ST_Envelope" [e.value db [] tables] :=
    value_apply db tables rfl [e]
  have hmeet (left right : Expr) : (Expr.apply "ST_Intersects" [left, right]).truthOn db tables =
      E.truth (E.call "ST_Intersects" [left.value db [] tables, right.value db [] tables]) :=
    congrArg E.truth (value_apply db tables rfl [left, right])
  have hboxesMeet (left right : Expr) :
      (Expr.apply "MBRIntersects" [left, right]).truthOn db tables =
        E.truth (E.call "MBRIntersects" [left.value db [] tables, right.value db [] tables]) :=
    congrArg E.truth (value_apply db tables rfl [left, right])
  cases d with
  | postgres | duckdb =>
    cases h
    cases boxes <;> simp [hmeet, henvelope, hshape, Engine.geometriesMeet]
  | mysql =>
    cases h
    cases boxes <;> simp [hmeet, hboxesMeet, hshape, Engine.geometriesMeet]
  | tsql | sqlite => cases h

/-- An operator between a column and one value. -/
theorem truthOn_compareOne {op : Operator} (h : op.arity = .single) (d : Dialect) (column : Expr)
    (values : List Literal) (kept : Bool) :
    (values.head?.map (op.compareOne column)).map (Expr.truthOn db tables) =
      op.truth? E d (column.value db [] tables) values kept := by
  have hone {truth : Literal → Truth}
      (hvalue : ∀ x, (op.compareOne column x).truthOn db tables = truth x) :
      (values.head?.map (op.compareOne column)).map (Expr.truthOn db tables) =
        values.head?.map truth := by
    rw [Option.map_map]
    exact congrArg (fun f => values.head?.map f) (funext hvalue)
  cases op with
  | equal ignoreCase negated =>
    cases ignoreCase with
    | false =>
      refine hone fun x => ?_
      cases negated <;>
        simp [Operator.compareOne, Operator.ignoresCase, Operator.binaryOp, truthOn_binary,
          Engine.binary, Truth.negatedIf]
    | true =>
      refine hone fun x => ?_
      cases negated <;>
        simp [Operator.compareOne, Operator.ignoresCase, Operator.binaryOp, truthOn_binary,
          Engine.binary, Truth.negatedIf, value_lower, value_string, Literal.soughtText]
  | less | lessOrEqual | greater | greaterOrEqual =>
    refine hone fun x => ?_
    simp [Operator.compareOne, Operator.ignoresCase, Operator.binaryOp, truthOn_binary,
      Engine.binary]
  | holds place ignoreCase negated =>
    refine hone fun x => ?_
    cases ignoreCase <;> cases negated <;>
      simp [Operator.compareOne, Operator.ignoresCase, Operator.binaryOp, truthOn_binary,
        Engine.binary, Truth.negatedIf, value_lower, value_string, Literal.soughtText,
        Engine.folded]
  | oneOf negated | null negated | empty negated | between negated | intersects boxes negated =>
    cases h

/-- The predicate of an operator has the truth value of the operator. -/
theorem truthOn_predicate? {op : Operator} {d : Dialect} {column : Expr} {values : List Literal}
    {kept : Bool} {e? : Option Expr} (h : op.predicate? d column values kept = .ok e?) :
    e?.map (Expr.truthOn db tables) =
      op.truth? E d (column.value db [] tables) values kept := by
  cases op with
  | null negated =>
    cases h
    refine congrArg some ((truthOn_isNull db tables column _).trans ?_)
    cases kept <;> cases negated <;> cases (column.value db [] tables).isNone <;> rfl
  | empty negated =>
    cases h
    refine congrArg some ?_
    cases kept <;> cases negated <;>
      simp [truthOn_binary, Engine.binary, value_string, Truth.negatedIf]
  | oneOf negated =>
    cases h
    refine congrArg some ((truthOn_inList db tables column _ negated).trans ?_)
    simp [Function.comp_def]
  | between negated =>
    rcases values with _ | ⟨low, _ | ⟨high, _ | ⟨extra, rest⟩⟩⟩
    · cases h
      rfl
    · cases h
      rfl
    · -- two bounds
      cases h
      refine congrArg some ((truthOn_between db tables column _ _ negated).trans ?_)
      simp
    · cases h
      rfl
  | intersects boxes negated =>
    rcases values with _ | ⟨value, rest⟩
    · cases h
      rfl
    · cases value with
      | string geojson =>
        rw [Operator.predicate?] at h
        split at h
        · next found hfound =>
          cases h
          exact congrArg some ((truthOn_negatedIf negated found).trans
            (congrArg _ (truthOn_intersects? hfound)))
        · cases h
      | int _ | float _ | bool _ | null =>
        cases h
        rfl
  | equal _ _ | less | lessOrEqual | greater | greaterOrEqual | holds _ _ _ =>
    cases h
    exact truthOn_compareOne rfl d column values kept

/-! ## Comparisons of a column -/

namespace Context

variable {c : Context}

theorem truthOn_compare? {column : Column} {comparison : Comparison} {e? : Option Expr}
    (h : c.compare? column comparison = .ok e?) :
    e?.map (Expr.truthOn db tables) =
      comparison.truth? E c.dialect column.valueKind (column.expr.value db [] tables) := by
  simp only [compare?, Except.bind_eq_ok_iff] at h
  obtain ⟨-, -, h⟩ := h
  unfold Comparison.truth?
  split at h
  · next hleft =>
    cases h
    rw [if_pos hleft]
    rfl
  · next hkept =>
    rw [if_neg hkept]
    exact truthOn_predicate? h

/-- The comparisons that are not left out have the truth values of the comparisons. -/
theorem truthOn_comparisons {column : Column} :
    ∀ {comparisons : List Comparison} {parts : List (Option Expr)},
      comparisons.mapM (c.compare? column) = .ok parts →
      parts.reduceOption.map (Expr.truthOn db tables) = comparisons.filterMap
        (Comparison.truth? E c.dialect column.valueKind (column.expr.value db [] tables)) := by
  intro comparisons
  induction comparisons with
  | nil =>
    intro parts h
    cases h
    rfl
  | cons comparison rest ih =>
    intro parts h
    rw [List.mapM_cons, Except.bind_eq_ok_iff] at h
    obtain ⟨part, hpart, h⟩ := h
    rw [Except.bind_eq_ok_iff] at h
    obtain ⟨parts, hparts, h⟩ := h
    cases h
    have hfirst : part.map (Expr.truthOn db tables) = _ := truthOn_compare? hpart
    rw [List.filterMap_cons, ← hfirst, ← ih hparts]
    cases part <;> rfl

theorem truthOn_compareAll? {column : Column} {comparisons : List Comparison} {e? : Option Expr}
    (h : c.compareAll? column comparisons = .ok e?) :
    e?.map (Expr.truthOn db tables) = Truth.all? (comparisons.filterMap
      (Comparison.truth? E c.dialect column.valueKind (column.expr.value db [] tables))) := by
  rw [compareAll?, Except.bind_eq_ok_iff] at h
  obtain ⟨parts, hparts, h⟩ := h
  cases h
  rw [truthOn_conjunction?, truthOn_comparisons hparts]

end Context

end JsonSql
