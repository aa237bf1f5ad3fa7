import JsonSql.Proofs.Followed

set_option autoImplicit false

/-!
# What is asked of concealed fields

A filter that compiles asks of a concealed field itself only whether it has a value
(`isBlind_of_compares`), at whatever depth.  A column that is a function of a field is never
concealed, so this says nothing of functions of concealed fields.
-/

namespace JsonSql

open JsonSql.Sql

namespace Context

variable {c : Context} {collection : String} {hops : Hops} {k k' : Nat}

/-! ## Single leaves -/

theorem grows_leafCondition? (leaf : Leaf) : (c.leafCondition? hops collection leaf).Grows := by
  cases leaf with
  | compared parents key comparisons => exact grows_fieldCondition? _ _ _ _ _
  | related parents key quantifier f => exact grows_fieldCondition? _ _ _ _ _

theorem LeavesGive.grows {leaves : List Leaf} {predicates : List Expr}
    (h : c.LeavesGive hops collection leaves k predicates k') : k ≤ k' := by
  induction leaves generalizing predicates k with
  | nil =>
    obtain ⟨parts, hparts, -⟩ := h
    rw [List.mapM_nil, Compile.gives_pure] at hparts
    exact Nat.le_of_eq hparts.2.symm
  | cons leaf rest ih =>
    obtain ⟨e?, k₁, others, hleaf, hrest, -⟩ := h.cons_gives
    exact Nat.le_trans (grows_leafCondition? leaf hleaf) (ih hrest)

/-- Each leaf has a condition. -/
theorem LeavesGive.of_leaf {leaf : Leaf} {leaves : List Leaf} {predicates : List Expr}
    (h : c.LeavesGive hops collection leaves k predicates k') (hleaf : leaf ∈ leaves) :
    ∃ e? k₁ k₂, k ≤ k₁ ∧ (c.leafCondition? hops collection leaf).Gives k₁ e? k₂ := by
  induction leaves generalizing predicates k with
  | nil => cases hleaf
  | cons first rest ih =>
    obtain ⟨e?, k₁, others, hfirst, hrest, -⟩ := h.cons_gives
    rcases List.mem_cons.mp hleaf with rfl | hleaf
    · exact ⟨e?, k, k₁, Nat.le_refl k, hfirst⟩
    · obtain ⟨e?, k₂, k₃, hle, hgives⟩ := ih hrest hleaf
      exact ⟨e?, k₂, k₃, Nat.le_trans (grows_leafCondition? first hfirst) hle, hgives⟩

/-- Each predicate is one of the condition of a leaf. -/
theorem LeavesGive.of_mem {p : Expr} {leaves : List Leaf} {predicates : List Expr}
    (h : c.LeavesGive hops collection leaves k predicates k') (hp : p ∈ predicates) :
    ∃ leaf ∈ leaves, ∃ e? k₁ k₂, k ≤ k₁ ∧ k₂ ≤ k' ∧
      (c.leafCondition? hops collection leaf).Gives k₁ e? k₂ ∧
      p ∈ e?.toList.flatMap Expr.predicates := by
  induction leaves generalizing predicates k with
  | nil =>
    obtain ⟨parts, hparts, rfl⟩ := h
    rw [List.mapM_nil, Compile.gives_pure] at hparts
    obtain ⟨rfl, rfl⟩ := hparts
    cases hp
  | cons first rest ih =>
    obtain ⟨e?, k₁, others, hfirst, hrest, rfl⟩ := h.cons_gives
    rcases List.mem_append.mp hp with hp | hp
    · exact ⟨first, List.mem_cons_self, e?, k, k₁, Nat.le_refl k, hrest.grows, hfirst, hp⟩
    · obtain ⟨leaf, hleaf, e?, k₂, k₃, hle, hle', hgives, hp⟩ := ih hrest hp
      exact ⟨leaf, List.mem_cons_of_mem _ hleaf, e?, k₂, k₃,
        Nat.le_trans (grows_leafCondition? first hfirst) hle, hle', hgives, hp⟩

/-! ## Admission -/

theorem isBlind_of_checkOperator {column : Column} {operator : Operator}
    (h : checkOperator column operator = .ok ()) (hconcealed : column.concealed = true) :
    operator.isBlind = true := by
  unfold checkOperator at h
  rw [hconcealed, Bool.true_and] at h
  cases hblind : operator.isBlind with
  | true => rfl
  | false =>
    rw [hblind] at h
    cases h

/-- Every comparison of a column is admitted, also one that is left out. -/
theorem isBlind_of_compareAll? {column : Column} {comparisons : List Comparison}
    {e? : Option Expr} (h : c.compareAll? column comparisons = .ok e?)
    (hconcealed : column.concealed = true) :
    ∀ comparison ∈ comparisons, comparison.operator.isBlind = true := by
  intro comparison hmem
  rw [compareAll?, Except.bind_eq_ok_iff] at h
  obtain ⟨parts, hparts, -⟩ := h
  obtain ⟨part, hpart⟩ := Except.exists_of_mapM_eq_ok hparts comparison hmem
  simp only [compare?, Except.bind_eq_ok_iff] at hpart
  obtain ⟨⟨⟩, hcheck, -⟩ := hpart
  exact isBlind_of_checkOperator hcheck hconcealed

/-- A field, or a function of one, is resolved where the parents of its path lead. -/
theorem column_of_compared {parents : List String} {key : String} {column : Column}
    (h : (c.column hops collection (parents ++ [Text.trim key])).Gives k column k') :
    ∃ place field, placeOf hops collection parents (Hops.key (parents ++ [Text.trim key])) =
        .ok place ∧
      c.provider.field place.collection (splitFunction (Text.trim key)).2 = .ok (some field) ∧
      ((splitFunction (Text.trim key)).1 = none ∧ column.concealed = field.isConcealed ∧
          column.expr = .of place.table (splitFunction (Text.trim key)).2 ∨
        ∃ function, (splitFunction (Text.trim key)).1 = some function ∧
          (c.applyFunction place function (Hops.key (parents ++ [Text.trim key]))
            (splitFunction (Text.trim key)).2 field.type).Gives k column.expr k') := by
  obtain ⟨last, place, field, hlast, hplace, hfield, hcolumn⟩ := column_gives h
  rw [List.getLast?_concat] at hlast
  obtain rfl := Option.some.inj hlast
  rw [List.dropLast_concat] at hplace
  refine ⟨place, field, hplace, hfield, ?_⟩
  rcases hcolumn with ⟨hnone, -, -, rfl⟩ | ⟨function, e, hsome, he, rfl⟩
  · exact .inl ⟨hnone, rfl, rfl⟩
  · exact .inr ⟨function, hsome, he⟩

/-- An existential condition, below the joins that are recorded, with the filter on the related
rows. -/
theorem related_gives {parents : List String} {key : String} {quantifier : Quantifier}
    {f : Filter} {e? : Option Expr} (hparents : IsPath parents)
    (hled : hops.Led c collection k)
    (h : (c.fieldCondition? hops collection parents key (.quantified quantifier f)).Gives k
      e? k') :
    ∃ owner table link r polymorphic known scope several inner? primary k₁,
      c.relatedLink? collection parents key = some (owner, link) ∧
      c.IsAsked hops collection parents key owner table link ∧
      IsReferring owner link r polymorphic known ∧
      (∃ info, c.provider.collection r.collection = .ok (some info)) ∧
      (c.joinFilter true r.collection [] { query := r.keysWith [] known } f).Gives k
        (scope, several) k₁ ∧
      (c.condition? scope.hops r.collection [] f).Gives k₁ inner? k' ∧
      (c.primary owner).Gives k' primary k' ∧
      e? = some (.inQuery
        (if polymorphic then .cast (.of table primary) .text else .of table primary)
        (r.keysWith scope.query.joins (known.and? inner?)) (quantifier = .none)) := by
  obtain ⟨owner, table, link, e, rfl, hasked, he⟩ := quantified_gives h
  obtain ⟨r, polymorphic, known, scope, several, inner?, primary, k₁, hreferring, hinfo, hjoin,
    hinner, hprimary, rfl⟩ := existential_eq he
  exact ⟨owner, table, link, r, polymorphic, known, scope, several, inner?, primary, k₁,
    hled.relatedLink? hparents hasked, hasked, hreferring, hinfo, hjoin, hinner, hprimary, rfl⟩

/-- Of a concealed field itself, a filter that compiles asks only whether there is a value. -/
theorem isBlind_of_compares {f : Filter} {owner field : String} {comparisons : List Comparison}
    (h : c.Compares collection f owner field comparisons) :
    ∀ {hops : Hops} {e? : Option Expr} {k k' : Nat}, f.IsUnfolded → hops.Led c collection k →
      (c.condition? hops collection [] f).Gives k e? k' → (splitFunction field).1 = none →
      ∀ {declared : Field},
        c.provider.field owner (splitFunction field).2 = .ok (some declared) →
        declared.isConcealed = true →
        ∀ comparison ∈ comparisons, comparison.operator.isBlind = true := by
  induction h with
  | @leaf collection owner key f parents comparisons hleaf hdestination =>
    intro hops e? k k' hf hled he hplain declared hdeclared hconcealed
    obtain ⟨part?, k₁, k₂, hle, hpart⟩ := (leavesGive_condition? [] f he).of_leaf hleaf
    have hparents := (isUnfolded_of_mem_leaves f isPath_nil hf _ hleaf).1
    obtain ⟨column, hcolumn, hall⟩ := compared_gives hpart
    obtain ⟨place, found, hplace, hfound, hkind⟩ := column_of_compared hcolumn
    rw [hled.placeOf hparents hplace] at hdestination
    obtain rfl := Option.some.inj hdestination
    rw [hdeclared] at hfound
    cases hfound
    rcases hkind with ⟨-, hsame, -⟩ | ⟨function, hsome, -⟩
    · exact isBlind_of_compareAll? hall (hsame.trans hconcealed)
    · rw [hplain] at hsome
      cases hsome
  | @inside collection there owner key field f g parents quantifier link r comparisons hleaf hlink
      hrelation hinside ih =>
    intro hops e? k k' hf hled he hplain declared hdeclared hconcealed
    obtain ⟨part?, k₁, k₂, hle, hpart⟩ := (leavesGive_condition? [] f he).of_leaf hleaf
    obtain ⟨hparents, -, hg⟩ := isUnfolded_of_mem_leaves f isPath_nil hf _ hleaf
    obtain ⟨owner', table, link', r', polymorphic, known, scope, several, inner?, primary, k₃,
      hasked, -, hreferring, -, hjoin, hinner, -, -⟩ :=
      related_gives hparents (hled.mono hle) hpart
    have hsame : link' = link := congrArg Prod.snd (Option.some.inj (hasked.symm.trans hlink))
    obtain rfl : r' = r := by
      have hfound := hreferring.relation?_eq
      rw [hsame, hrelation] at hfound
      exact (Option.some.inj hfound).symm
    exact ih hg ((Hops.Led.empty k₁).joinFilter hg hjoin) hinner hplain hdeclared hconcealed

end Context

end JsonSql
