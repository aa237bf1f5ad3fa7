import JsonSql.Proofs.Shape
import Mathlib.Data.List.ReduceOption

set_option autoImplicit false

/-!
# Runs of column resolution

What the steps below a condition give: the target and condition of a join, the place and column of
a path, and the predicates of comparisons with it.
-/

namespace JsonSql

open JsonSql.Sql

namespace Context

variable {c : Context}

/-! ## Targets of joins -/

/-- A link is joined on the table that it starts from and the joined table. -/
theorem isLink_of_joinTarget {place : Place} {segment table target : String} {link : Link}
    {e : Expr} {k k' : Nat}
    (h : (c.joinTarget place segment table link).Gives k (target, e) k') :
    IsLink [table, place.table] e := by
  have htable : table ∈ [table, place.table] := List.mem_cons_self
  have hplace : place.table ∈ [table, place.table] := List.mem_cons_of_mem _ List.mem_cons_self
  cases link with
  | none => exact absurd h Compile.not_gives_throw
  | manyToOne r =>
    unfold joinTarget at h
    dsimp only at h
    split at h
    · exact absurd h Compile.not_gives_throw
    · simp only [Compile.gives_bind, Compile.gives_pure] at h
      obtain ⟨primary, k₁, -, hresult, -⟩ := h
      cases hresult
      exact .keys r.field primary hplace htable
  | manyToAny r scope =>
    unfold joinTarget at h
    dsimp only at h
    split at h
    · exact absurd h Compile.not_gives_throw
    · split at h
      · simp only [Compile.gives_bind, Compile.gives_pure] at h
        obtain ⟨column, k₁, -, primary, k₂, -, hresult, -⟩ := h
        cases hresult
        exact .polymorphic column r.field _ primary hplace htable
      · exact absurd h Compile.not_gives_throw
  | oneToMany r =>
    rw [joinTarget] at h
    simp only [Compile.gives_bind, Compile.gives_pure] at h
    obtain ⟨primary, k₁, -, hresult, -⟩ := h
    cases hresult
    exact .keys primary r.field hplace htable
  | oneToAny r =>
    rw [joinTarget] at h
    simp only [Compile.gives_bind, Compile.gives_pure] at h
    obtain ⟨column, k₁, -, primary, k₂, -, hresult, -⟩ := h
    cases hresult
    exact .polymorphic column r.field _ primary htable hplace

/-! ## Columns -/

/-- What is known of the tables that a path can end at: the root and the joins. -/
def KnownHops (names : List String) (collection : String) (hops : Hops) : Prop :=
  collection ∈ names ∧ ∀ path hop, hops.get? path = some hop → hop.name ∈ names

theorem placeOf_eq_ok {hops : Hops} {collection path : String} {parents : List String}
    {place : Place} (h : placeOf hops collection parents path = .ok place) :
    (parents = [] ∧ place = .root collection) ∨
      (parents ≠ [] ∧ ∃ hop, hops.get? parents = some hop ∧ place = hop.place) := by
  unfold placeOf at h
  split at h
  · next hempty =>
    cases h
    exact .inl ⟨hempty, rfl⟩
  · next hne =>
    split at h
    · next hop hfound =>
      cases h
      exact .inr ⟨hne, hop, hfound, rfl⟩
    · cases h

theorem placeOf_mem {names : List String} {hops : Hops} {collection path : String}
    {parents : List String} {place : Place} (hknown : KnownHops names collection hops)
    (h : placeOf hops collection parents path = .ok place) : place.table ∈ names := by
  rcases placeOf_eq_ok h with ⟨-, rfl⟩ | ⟨-, hop, hfound, rfl⟩
  · exact hknown.1
  · exact hknown.2 _ hop hfound

/-- A column is a plain field at the place of its parents, or a function of one. -/
theorem column_gives {hops : Hops} {collection : String} {path : List String} {column : Column}
    {k k' : Nat} (h : (c.column hops collection path).Gives k column k') :
    ∃ last place field, path.getLast? = some last ∧
      placeOf hops collection path.dropLast (Hops.key path) = .ok place ∧
      c.provider.field place.collection (splitFunction last).2 = .ok (some field) ∧
      (((splitFunction last).1 = none ∧ field.isAlias = false ∧ k' = k ∧ column = {
          expr := .of place.table (splitFunction last).2, path := Hops.key path
          type := field.type, concealed := field.isConcealed, isFunction := false }) ∨
        ∃ function e, (splitFunction last).1 = some function ∧
          (c.applyFunction place function (Hops.key path) (splitFunction last).2
            field.type).Gives k e k' ∧
          column = {
            expr := e, path := Hops.key path, type := .integer, concealed := false
            isFunction := true }) := by
  unfold Context.column at h
  dsimp only at h
  split at h
  · exact absurd h Compile.not_gives_throw
  · next last hlast =>
    simp only [Compile.gives_bind, Compile.gives_lift, field_gives] at h
    obtain ⟨place, k₁, ⟨hplace, rfl⟩, field, k₂, ⟨hfield, rfl⟩, h⟩ := h
    refine ⟨last, place, field, hlast, hplace, hfield, ?_⟩
    split at h
    · next hnone =>
      split at h
      · simp at h
      · next hreal =>
        simp only [Compile.gives_pure] at h
        obtain ⟨rfl, rfl⟩ := h
        exact .inl ⟨hnone, by simpa using hreal, rfl, rfl⟩
    · next function hsome =>
      simp only [Compile.gives_bind, Compile.gives_pure] at h
      obtain ⟨e, k₃, he, rfl, rfl⟩ := h
      exact .inr ⟨function, e, hsome, he, rfl⟩

/-- The rows of a link from a table are counted under the next alias, by the key that they refer
to. -/
theorem countRows?_gives {collection table : String} {link : Link} {e : Expr} {k k' : Nat}
    (h : (c.countRows? collection table link).Gives k (some e) k') :
    ∃ r primary condition, (c.primary collection).Gives k primary k ∧ k' = k + 1 ∧
      e = .subquery {
        items := [⟨.countRows, none⟩]
        source := some ⟨r.collection, some (c.names k)⟩
        condition := some condition } ∧
      IsLink [c.names k, table] condition ∧
      (link = .oneToMany r ∧ condition = .equals (.of (c.names k) r.field) (.of table primary) ∨
        ∃ column, link = .oneToAny r ∧ r.info.discriminator = some column ∧
          condition = refersTo (c.names k) column r.field collection (.of table primary)) := by
  simp only [countRows?, Compile.gives_bind, freshAlias_gives] at h
  obtain ⟨primary, k₁, hprimary, name, k₂, ⟨rfl, rfl⟩, h⟩ := h
  obtain ⟨-, -, -, rfl⟩ := primary_gives.mp hprimary
  have hname : c.names k₁ ∈ [c.names k₁, table] := List.mem_cons_self
  have htable : table ∈ [c.names k₁, table] := List.mem_cons_of_mem _ List.mem_cons_self
  split at h
  · next r =>
    obtain ⟨hresult, rfl⟩ := Compile.gives_pure.mp h
    cases hresult
    exact ⟨r, primary, _, hprimary, rfl, rfl, .keys r.field primary hname htable,
      .inl ⟨rfl, rfl⟩⟩
  · next r =>
    split at h
    · obtain ⟨hresult, -⟩ := Compile.gives_pure.mp h
      cases hresult
    · next column hcolumn =>
      obtain ⟨hresult, rfl⟩ := Compile.gives_pure.mp h
      cases hresult
      exact ⟨r, primary, _, hprimary, rfl, rfl,
        .polymorphic column r.field collection primary hname htable,
        .inr ⟨column, rfl, hcolumn, rfl⟩⟩
  · obtain ⟨hresult, -⟩ := Compile.gives_pure.mp h
    cases hresult

theorem isCount_of_countRows? {collection table : String} {link : Link} {e : Expr} {k k' : Nat}
    (h : (c.countRows? collection table link).Gives k (some e) k') :
    ∃ q, e = .subquery q ∧ IsCount table q := by
  obtain ⟨r, primary, condition, -, -, rfl, hlink, -⟩ := countRows?_gives h
  exact ⟨_, rfl, .mk r.collection (c.names k) hlink⟩

/-- A part of a field is taken as the family of its values has it. -/
theorem partOf_eq_ok {part : DatePart} {type : FieldType} {column e : Expr}
    (h : c.partOf part type column = .ok e) :
    ∃ kind, type.dateKind? = some kind ∧ e = c.dialect.datePart part kind column := by
  unfold partOf at h
  split at h
  · cases h
  · next kind hkind =>
    split at h
    · cases h
      exact ⟨kind, hkind, rfl⟩
    · cases h

/-- The name of a function and the type of the field tell whether a function of a field is a part of
its value, the length of its JSON, or the count of its rows. -/
theorem applyFunction_cases {place : Place} {function path field : String} {type : FieldType}
    {e : Expr} {k k' : Nat}
    (h : (c.applyFunction place function path field type).Gives k e k') :
    (∃ part kind, FieldFunction.ofName? function = some (.part part) ∧
        type.dateKind? = some kind ∧ e = c.dialect.datePart part kind (.of place.table field) ∧
        k' = k) ∨
      (FieldFunction.ofName? function = some .count ∧ type = .json ∧
        c.dialect.jsonArrayLength? (.of place.table field) = some e ∧ k' = k) ∨
      FieldFunction.ofName? function = some .count ∧ type ≠ .json ∧
        (c.countRows? place.collection place.table (c.link place.collection field)).Gives k
          (some e) k' := by
  unfold applyFunction at h
  dsimp only at h
  split at h
  · exact absurd h Compile.not_gives_throw
  · next part hname =>
    split at h
    · next found hpart =>
      obtain ⟨rfl, rfl⟩ := Compile.gives_pure.mp h
      obtain ⟨kind, hkind, rfl⟩ := partOf_eq_ok hpart
      exact .inl ⟨part, kind, hname, hkind, rfl, rfl⟩
    · exact absurd h Compile.not_gives_throw
  · next hname =>
    split at h
    · next hjson =>
      rw [Compile.gives_lift] at h
      obtain ⟨hlength, rfl⟩ := h
      unfold jsonLength at hlength
      split at hlength
      · next found hfound =>
        cases hlength
        exact .inr (.inl ⟨hname, hjson, hfound, rfl⟩)
      · cases hlength
    · next hrows =>
      rw [Compile.gives_bind] at h
      obtain ⟨result, k₁, hcount, h⟩ := h
      cases result with
      | none => exact absurd h Compile.not_gives_throw
      | some found =>
        obtain ⟨rfl, rfl⟩ := Compile.gives_pure.mp h
        exact .inr (.inr ⟨hname, hrows, hcount⟩)

/-- A function of a field is a part of its value, the length of its JSON, or the count of its
rows. -/
theorem applyFunction_gives {place : Place} {function path field : String} {type : FieldType}
    {e : Expr} {k k' : Nat}
    (h : (c.applyFunction place function path field type).Gives k e k') :
    (∃ part kind, e = c.dialect.datePart part kind (.of place.table field) ∧ k' = k) ∨
      (c.dialect.jsonArrayLength? (.of place.table field) = some e ∧ k' = k) ∨
      FieldFunction.ofName? function = some .count ∧
        (c.countRows? place.collection place.table (c.link place.collection field)).Gives k
          (some e) k' := by
  rcases applyFunction_cases h with ⟨part, kind, -, -, he⟩ | ⟨-, -, hlength⟩ | ⟨hname, -, hcount⟩
  · exact .inl ⟨part, kind, he⟩
  · exact .inr (.inl hlength)
  · exact .inr (.inr ⟨hname, hcount⟩)

theorem isColumn_of_applyFunction {names : List String} {place : Place}
    {function path field : String} {type : FieldType} {e : Expr} {k k' : Nat}
    (hplace : place.table ∈ names)
    (h : (c.applyFunction place function path field type).Gives k e k') : IsColumn names e := by
  rcases applyFunction_gives h with ⟨part, kind, rfl, -⟩ | ⟨hlength, -⟩ | ⟨-, hcount⟩
  · exact .part c.dialect part kind field hplace
  · exact .jsonLength c.dialect field hplace hlength
  · obtain ⟨q, rfl, hq⟩ := isCount_of_countRows? hcount
    exact .count hplace hq

theorem isColumn_of_column {names : List String} {hops : Hops} {collection : String}
    {path : List String} {column : Column} {k k' : Nat} (hknown : KnownHops names collection hops)
    (h : (c.column hops collection path).Gives k column k') : IsColumn names column.expr := by
  obtain ⟨last, place, field, -, hplace, -, h⟩ := column_gives h
  have hmem := placeOf_mem hknown hplace
  rcases h with ⟨-, -, -, rfl⟩ | ⟨function, e, -, he, rfl⟩
  · exact .plain _ hmem
  · exact isColumn_of_applyFunction hmem he

/-! ## Comparisons -/

theorem isPredicate_compareOne {op : Operator} {column : Expr} {value : Literal} :
    IsPredicate column (op.compareOne column value) := by
  have hop : op.binaryOp.isComparison = true := by
    cases op with
    | equal ignoreCase negated => cases negated <;> rfl
    | holds place ignoreCase negated => cases negated <;> rfl
    | _ => rfl
  unfold Operator.compareOne
  dsimp only
  -- the right side is a literal whatever the operator
  split
  · split <;> exact .compareLower _ hop
  · split <;> exact .compare _ hop

theorem isPredicate_of_predicate? {op : Operator} {d : Dialect} {column e : Expr}
    {values : List Literal} {kept : Bool} (h : op.predicate? d column values kept = .ok (some e)) :
    IsPredicate column e := by
  unfold Operator.predicate? at h
  split at h
  · cases h
    exact .null _
  · next negated =>
    cases h
    split
    · exact .compare _ rfl
    · exact .compare _ rfl
  · cases h
    exact .oneOf values _
  · split at h
    · cases h
      exact .between _ _ _
    · cases h
  · split at h
    · split at h
      · next hfound =>
        cases h
        exact .intersects d _ _ _ hfound
      · cases h
    · cases h
  · injection h with h
    obtain ⟨value, -, rfl⟩ := Option.map_eq_some_iff.mp h
    exact isPredicate_compareOne

/-- A comparison that is not left out is the predicate of its operator on the column. -/
theorem compare?_eq_ok_some {column : Column} {comparison : Comparison} {e : Expr}
    (h : c.compare? column comparison = .ok (some e)) :
    ∃ values, comparison.operator.predicate? c.dialect column.expr values
      (leavesOperator comparison.value) = .ok (some e) := by
  simp only [compare?, Except.bind_eq_ok_iff] at h
  obtain ⟨-, -, h⟩ := h
  split at h
  · cases h
  · exact ⟨_, h⟩

theorem isCondition_of_compareAll? {names : List String} {column : Column}
    {comparisons : List Comparison} {e : Expr} (hcolumn : IsColumn names column.expr)
    (h : c.compareAll? column comparisons = .ok (some e)) : IsCondition names e := by
  rw [compareAll?, Except.bind_eq_ok_iff] at h
  obtain ⟨parts, hparts, h⟩ := h
  have he : conjunction? parts.reduceOption = some e := by injection h
  refine isCondition_conjunction? ?_ he
  intro p hp
  rw [List.reduceOption_mem_iff] at hp
  obtain ⟨comparison, -, hcomparison⟩ := Except.mem_of_mapM_eq_ok hparts _ hp
  obtain ⟨values, hpredicate⟩ := compare?_eq_ok_some hcomparison
  exact .predicate hcolumn (isPredicate_of_predicate? hpredicate)

end Context

end JsonSql
