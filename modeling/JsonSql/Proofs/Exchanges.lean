import JsonSql.Proofs.Reorderings

set_option autoImplicit false

/-!
# Exchanged conditions

A filter with what is asked of one key exchanged for something else, wherever the key stands: beside
other clauses, in groups and below keys that lead on (`Filter.Exchanges`).  What the two conditions
have to do with one another carries over to the filters around them, as far as groups keep it
(`Filter.Exchanges.lift`).  Rows may even be chosen anew for the exchanged condition, if nothing
that has to hold together with it looks at them (`Filter.Exchanges.eq_yes_or`).
-/

namespace JsonSql

open JsonSql.Sql

/-! ## Truth values of groups -/

namespace Truth

theorem all_eq_yes {ts : List Truth} : all ts = yes ↔ ∀ t ∈ ts, t = yes := by
  induction ts with
  | nil => simp
  | cons t rest ih => simp [ih]

theorem isSome_all? (ts : List Truth) : (all? ts).isSome = !ts.isEmpty := by
  cases ts <;> rfl

theorem isSome_any? (ts : List Truth) : (any? ts).isSome = !ts.isEmpty := by
  cases ts <;> rfl

theorem all?_eq_yes {ts : List Truth} : all? ts = some yes ↔ ts ≠ [] ∧ ∀ t ∈ ts, t = yes := by
  cases ts with
  | nil => simp [all?]
  | cons t rest => simp only [all?, Option.some.injEq, all_eq_yes, ne_eq, reduceCtorEq,
      not_false_eq_true, true_and]

theorem getD_all?_eq_yes {ts : List Truth} : (all? ts).getD yes = yes ↔ ∀ t ∈ ts, t = yes := by
  cases ts with
  | nil => simp [all?]
  | cons t rest => simp only [all?, Option.getD_some, all_eq_yes]

/-- A truth value that holds adds nothing to a conjunction. -/
theorem all?_within_yes {before after : List Truth} :
    all? (before ++ ((some yes).toList ++ after)) = some yes ↔
      (all? (before ++ after)).getD yes = yes := by
  rw [all?_eq_yes, getD_all?_eq_yes]
  simp only [List.mem_append, Option.mem_toList]
  refine ⟨fun ⟨_, hall⟩ t ht => hall t (ht.imp_right .inr), fun hall => ⟨by simp, fun t ht => ?_⟩⟩
  rcases ht with ht | ht | ht
  · exact hall t (.inl ht)
  · exact (Option.some.inj ht).symm
  · exact hall t (.inr ht)

theorem any?_eq_yes {ts : List Truth} : any? ts = some yes ↔ yes ∈ ts := by
  cases ts with
  | nil => simp [any?]
  | cons t rest => simp only [any?, Option.some.injEq, any_eq_yes]

/-- What holds between two truth values, if there are any, holds between groups that have one or
the other among the same further ones. -/
structure IsKept (T : Option Truth → Option Truth → Prop) : Prop where
  refl : ∀ t? : Option Truth, T t? t?
  trans : ∀ {t? u? v? : Option Truth}, T t? u? → T u? v? → T t? v?
  all : ∀ {t? u? : Option Truth} (before after : List Truth), T t? u? →
    T (all? (before ++ (t?.toList ++ after))) (all? (before ++ (u?.toList ++ after)))
  any : ∀ {t? u? : Option Truth} (before after : List Truth), T t? u? →
    T (any? (before ++ (t?.toList ++ after))) (any? (before ++ (u?.toList ++ after)))

theorem isKept_eq : IsKept Eq where
  refl _ := rfl
  trans := Eq.trans
  all _ _ h := by rw [h]
  any _ _ h := by rw [h]

/-- Both truth values are there or neither is. -/
theorem isKept_isSome : IsKept fun t? u? => t?.isSome = u?.isSome where
  refl _ := rfl
  trans := Eq.trans
  all {t? u?} before after h := by
    rw [isSome_all?, isSome_all?]
    cases t? <;> cases u? <;> cases before <;> simp_all
  any {t? u?} before after h := by
    rw [isSome_any?, isSome_any?]
    cases t? <;> cases u? <;> cases before <;> simp_all

/-- Both truth values are there or neither is, and if the first one holds then so does the second
one. -/
structure Entails (t? u? : Option Truth) : Prop where
  isSome : t?.isSome = u?.isSome
  yes : t? = some .yes → u? = some .yes

/-- If a truth value is there then so is one that it entails. -/
theorem Entails.toList {t? u? : Option Truth} (h : Entails t? u?) {t : Truth} (ht : t ∈ u?.toList)
    (hall : ∀ t ∈ t?.toList, t = .yes) : t = .yes := by
  obtain rfl := Option.mem_toList.mp ht
  obtain ⟨u, rfl⟩ := Option.isSome_iff_exists.mp (h.isSome.trans rfl)
  obtain rfl := hall u (by simp)
  exact Option.some.inj (h.yes rfl)

theorem isKept_entails : IsKept Entails where
  refl _ := ⟨rfl, id⟩
  trans h h' := ⟨h.isSome.trans h'.isSome, h'.yes ∘ h.yes⟩
  all {t? u?} before after h := by
    refine ⟨isKept_isSome.all before after h.isSome, fun hyes => ?_⟩
    have hsome := isKept_isSome.all before after h.isSome
    rw [hyes, Option.isSome_some, isSome_all?] at hsome
    obtain ⟨-, hall⟩ := all?_eq_yes.mp hyes
    refine all?_eq_yes.mpr ⟨fun hnil => ?_, fun t ht => ?_⟩
    · rw [hnil] at hsome
      cases hsome
    · simp only [List.mem_append] at ht hall
      rcases ht with ht | ht | ht
      · exact hall t (.inl ht)
      · exact h.toList ht fun u hu => hall u (.inr (.inl hu))
      · exact hall t (.inr (.inr ht))
  any {t? u?} before after h := by
    refine ⟨isKept_isSome.any before after h.isSome, fun hyes => ?_⟩
    rw [any?_eq_yes] at hyes ⊢
    simp only [List.mem_append, Option.mem_toList] at hyes ⊢
    exact hyes.imp_right (Or.imp_left h.yes)

end Truth

/-! ## Exchanged conditions -/

/-- What is asked of a key under a path of parents, and what is to be asked of it instead. -/
structure Exchange where
  parents : List String
  key : String
  old : FieldCondition
  new : FieldCondition

section

variable {E : Engine} (s : Schema) (db : Database E) (d : Dialect) (collection : String)
  (rows : Placed E) (e : Exchange)

/-- The truth value of what is asked of the key. -/
noncomputable def Exchange.old? : Option Truth := e.old.sense? s db d collection e.parents rows e.key

/-- The truth value of what is to be asked of the key instead. -/
noncomputable def Exchange.new? : Option Truth := e.new.sense? s db d collection e.parents rows e.key

end

mutual
/-- The second filter is the first one with what is asked of one key exchanged.  The paths of all
that has to hold together with it are among the further paths. -/
inductive Filter.Exchanges (c : Context) (collection : String) (further : List String → Prop)
    (e : Exchange) : List String → Filter → Filter → Prop
  | clause {parents : List String} {x y : Clause} (before after : List Clause) :
      x.Exchanges c collection further e parents y →
      (∀ path ∈ c.clausesPaths collection parents (before ++ after), further path) →
      Filter.Exchanges c collection further e parents ⟨before ++ x :: after⟩
        ⟨before ++ y :: after⟩

/-- The second clause is the first one with what is asked of one key exchanged. -/
inductive Clause.Exchanges (c : Context) (collection : String) (further : List String → Prop)
    (e : Exchange) : List String → Clause → Clause → Prop
  | all {parents : List String} {f g : Filter} (before after : List Filter) :
      f.Exchanges c collection further e parents g →
      (∀ path ∈ c.filtersPaths collection parents (before ++ after), further path) →
      Clause.Exchanges c collection further e parents (.all (before ++ f :: after))
        (.all (before ++ g :: after))
  | any {parents : List String} {f g : Filter} (before after : List Filter) :
      f.Exchanges c collection further e parents g →
      Clause.Exchanges c collection further e parents (.any (before ++ f :: after))
        (.any (before ++ g :: after))
  | here : Clause.Exchanges c collection further e e.parents (.field e.key e.old)
      (.field e.key e.new)
  | onward {parents : List String} {f g : Filter} (key : String) :
      c.startsExistential collection parents key = false →
      f.Exchanges c collection further e (parents ++ [Text.trim key]) g →
      Clause.Exchanges c collection further e parents (.field key (.nested f))
        (.field key (.nested g))
end

section

variable {E : Engine} {s : Schema} {db : Database E} {options : Options} {names : Nat → String}
  {collection : String} {further : List String → Prop} {e : Exchange} {rows rows' : Placed E}

theorem Filter.Exchanges.isEmpty_eq {c : Context} {parents : List String} {f g : Filter}
    (h : f.Exchanges c collection further e parents g) : f.isEmpty = g.isEmpty := by
  cases h with
  | clause before after _ _ => cases before <;> rfl

theorem Filter.Exchanges.holdsAlways_eq {c : Context} {parents : List String} {f g : Filter}
    (h : f.Exchanges c collection further e parents g) (before after : List Filter) :
    holdsAlways (before ++ f :: after) = holdsAlways (before ++ g :: after) := by
  simp [holdsAlways, h.isEmpty_eq]

/-- The truth values of clauses, one of which is singled out. -/
theorem Filter.sense?_clause (parents : List String) (before after : List Clause) (x : Clause) :
    (Filter.mk (before ++ x :: after)).sense? s db options.dialect collection parents rows =
      Truth.all? (clauseSenses s db options.dialect collection parents rows before ++
        ((x.sense? s db options.dialect collection parents rows).toList ++
          clauseSenses s db options.dialect collection parents rows after)) := by
  rw [Filter.sense?, clauseSenses_eq_flatMap, clauseSenses_eq_flatMap, clauseSenses_eq_flatMap,
    List.flatMap_append, List.flatMap_cons]

/-- The truth values of filters, one of which is singled out. -/
theorem filterSenses_within (parents : List String) (before after : List Filter) (f : Filter) :
    filterSenses s db options.dialect collection parents rows (before ++ f :: after) =
      filterSenses s db options.dialect collection parents rows before ++
        ((f.sense? s db options.dialect collection parents rows).toList ++
          filterSenses s db options.dialect collection parents rows after) := by
  rw [filterSenses_eq_flatMap, filterSenses_eq_flatMap, filterSenses_eq_flatMap,
    List.flatMap_append, List.flatMap_cons]

variable {T : Option Truth → Option Truth → Prop}

mutual
/-- What groups keep carries over from the exchanged conditions to the filters around them. -/
theorem Filter.Exchanges.lift (hT : Truth.IsKept T)
    (hcondition : T (e.old? s db options.dialect collection rows)
      (e.new? s db options.dialect collection rows)) :
    ∀ {parents : List String} {f g : Filter},
      f.Exchanges (s.context options names) collection further e parents g →
        T (f.sense? s db options.dialect collection parents rows)
          (g.sense? s db options.dialect collection parents rows)
  | _, _, _, .clause before after h _ => by
    rw [Filter.sense?_clause, Filter.sense?_clause]
    exact hT.all _ _ (h.lift hT hcondition)

theorem Clause.Exchanges.lift (hT : Truth.IsKept T)
    (hcondition : T (e.old? s db options.dialect collection rows)
      (e.new? s db options.dialect collection rows)) :
    ∀ {parents : List String} {x y : Clause},
      x.Exchanges (s.context options names) collection further e parents y →
        T (x.sense? s db options.dialect collection parents rows)
          (y.sense? s db options.dialect collection parents rows)
  | _, _, _, .all before after h _ => by
    rw [Clause.sense?, Clause.sense?, filterSenses_within, filterSenses_within]
    exact hT.all _ _ (h.lift hT hcondition)
  | _, _, _, .any before after h => by
    rw [Clause.sense?, Clause.sense?, filterSenses_within, filterSenses_within,
      h.holdsAlways_eq before after]
    split
    · exact hT.refl none
    · exact hT.any _ _ (h.lift hT hcondition)
  | _, _, _, .here => by
    rw [Clause.sense?, Clause.sense?]
    exact hcondition
  | parents, _, _, .onward key hstart h => by
    have hstart : ¬(parents.isEmpty && (link s.relations collection key).isToMany) = true :=
      Bool.eq_false_iff.mp hstart
    rw [Clause.sense?, Clause.sense?, FieldCondition.sense?, FieldCondition.sense?, if_neg hstart,
      if_neg hstart]
    exact h.lift hT hcondition
end

/-! ## Rows that filters look at -/

/-- What is asked of the last segment of a path that is as `P` says has truth values on one rows
and on others that are related by `T`. -/
def LeavesKeep (T : Option Truth → Option Truth → Prop) (s : Schema) (db : Database E)
    (options : Options) (names : Nat → String) (collection : String) (P : List String → Prop)
    (rows rows' : Placed E) : Prop :=
  ∀ (parents : List String) (key : String) (condition : FieldCondition),
    (s.context options names).startsExistential collection parents key = true ∨
      P (parents ++ [Text.trim key]) ∧ (∀ f, condition ≠ .nested f) →
    T (condition.sense? s db options.dialect collection parents rows key)
      (condition.sense? s db options.dialect collection parents rows' key)

variable {P : List String → Prop}

mutual
/-- What groups keep, and what holds of all that a filter asks of the last segments of its paths on
one rows and on others, holds of the filter. -/
theorem Filter.sense?_rows (hT : Truth.IsKept T)
    (hleaves : LeavesKeep T s db options names collection P rows rows') (f : Filter) (parents : List String)
    (hpaths : ∀ path ∈ (s.context options names).filterPaths collection parents f, P path) :
    T (f.sense? s db options.dialect collection parents rows)
      (f.sense? s db options.dialect collection parents rows') := by
  obtain ⟨clauses⟩ := f
  rw [Filter.sense?, Filter.sense?]
  exact clauseSenses_rows hT hleaves clauses parents hpaths []

theorem clauseSenses_rows (hT : Truth.IsKept T)
    (hleaves : LeavesKeep T s db options names collection P rows rows') (clauses : List Clause) (parents : List String)
    (hpaths : ∀ path ∈ (s.context options names).clausesPaths collection parents clauses, P path)
    (before : List Truth) :
    T (Truth.all? (before ++ clauseSenses s db options.dialect collection parents rows clauses))
      (Truth.all? (before ++
        clauseSenses s db options.dialect collection parents rows' clauses)) := by
  cases clauses with
  | nil =>
    rw [clauseSenses, clauseSenses]
    exact hT.refl _
  | cons clause rest =>
    rw [Context.clausesPaths] at hpaths
    rw [clauseSenses, clauseSenses]
    refine hT.trans (hT.all _ _ (Clause.sense?_rows hT hleaves clause parents fun path hpath =>
      hpaths path (List.mem_append_left _ hpath))) ?_
    rw [← List.append_assoc, ← List.append_assoc before]
    exact clauseSenses_rows hT hleaves rest parents
      (fun path hpath => hpaths path (List.mem_append_right _ hpath)) _

theorem Clause.sense?_rows (hT : Truth.IsKept T)
    (hleaves : LeavesKeep T s db options names collection P rows rows') (clause : Clause) (parents : List String)
    (hpaths : ∀ path ∈ (s.context options names).clausePaths collection parents clause, P path) :
    T (clause.sense? s db options.dialect collection parents rows)
      (clause.sense? s db options.dialect collection parents rows') := by
  cases clause with
  | all filters =>
    rw [Context.clausePaths] at hpaths
    rw [Clause.sense?, Clause.sense?]
    exact (filterSenses_rows hT hleaves filters parents hpaths []).1
  | any filters =>
    rw [Context.clausePaths] at hpaths
    rw [Clause.sense?, Clause.sense?]
    split
    · exact hT.refl none
    · next hrestricts =>
      rw [if_neg hrestricts] at hpaths
      exact (filterSenses_rows hT hleaves filters parents hpaths []).2
  | field key condition =>
    rw [Context.clausePaths] at hpaths
    rw [Clause.sense?, Clause.sense?]
    by_cases hstart : (s.context options names).startsExistential collection parents key = true
    · exact hleaves parents key condition (.inl hstart)
    rw [if_neg hstart] at hpaths
    cases condition with
    | compare comparisons =>
      exact hleaves parents key _ (.inr ⟨hpaths _ (List.mem_singleton_self _), nofun⟩)
    | nested f =>
      have hstart : ¬(parents.isEmpty && (link s.relations collection key).isToMany) = true :=
        hstart
      rw [FieldCondition.sense?, FieldCondition.sense?, if_neg hstart, if_neg hstart]
      exact Filter.sense?_rows hT hleaves f (parents ++ [Text.trim key]) hpaths
    | quantified quantifier f =>
      exact hleaves parents key _ (.inr ⟨hpaths _ (List.mem_singleton_self _), nofun⟩)

theorem filterSenses_rows (hT : Truth.IsKept T)
    (hleaves : LeavesKeep T s db options names collection P rows rows') (filters : List Filter) (parents : List String)
    (hpaths : ∀ path ∈ (s.context options names).filtersPaths collection parents filters, P path)
    (before : List Truth) :
    T (Truth.all? (before ++ filterSenses s db options.dialect collection parents rows filters))
        (Truth.all? (before ++
          filterSenses s db options.dialect collection parents rows' filters)) ∧
      T (Truth.any? (before ++ filterSenses s db options.dialect collection parents rows filters))
        (Truth.any? (before ++
          filterSenses s db options.dialect collection parents rows' filters)) := by
  cases filters with
  | nil =>
    rw [filterSenses, filterSenses]
    exact ⟨hT.refl _, hT.refl _⟩
  | cons f rest =>
    rw [Context.filtersPaths] at hpaths
    have hf := Filter.sense?_rows hT hleaves f parents fun path hpath =>
      hpaths path (List.mem_append_left _ hpath)
    obtain ⟨hall, hany⟩ := filterSenses_rows hT hleaves rest parents
      (fun path hpath => hpaths path (List.mem_append_right _ hpath))
      (before ++ (f.sense? s db options.dialect collection parents rows').toList)
    rw [List.append_assoc, List.append_assoc] at hall hany
    rw [filterSenses, filterSenses]
    exact ⟨hT.trans (hT.all _ _ hf) hall, hT.trans (hT.any _ _ hf) hany⟩
end

/-- Whether an operator needs other literals does not depend on the value that is compared. -/
theorem Operator.isSome_truth? (d : Dialect) (op : Operator) (v w : E.Value)
    (literals : List Literal) (kept : Bool) :
    (op.truth? E d v literals kept).isSome = (op.truth? E d w literals kept).isSome := by
  cases op with
  | equal ignoreCase negated => cases ignoreCase <;> simp [Operator.truth?]
  | between negated => rcases literals with _ | ⟨low, _ | ⟨high, _ | _⟩⟩ <;> rfl
  | intersects boxes negated =>
    rcases literals with _ | ⟨x, rest⟩
    · rfl
    · cases x <;> rfl
  | _ => simp [Operator.truth?]

/-- Whether a comparison restricts anything does not depend on the value that is compared. -/
theorem Comparison.isSome_truth? (d : Dialect) (kind : ValueKind) (v w : E.Value)
    (comparison : Comparison) :
    (comparison.truth? E d kind v).isSome = (comparison.truth? E d kind w).isSome := by
  rw [Comparison.truth?, Comparison.truth?]
  split
  · rfl
  · exact Operator.isSome_truth? d comparison.operator v w _ _

theorem isEmpty_filterMap_congr {α β : Type} {f g : α → Option β}
    (h : ∀ a, (f a).isSome = (g a).isSome) (items : List α) :
    (items.filterMap f).isEmpty = (items.filterMap g).isEmpty := by
  induction items with
  | nil => rfl
  | cons a rest ih =>
    have ha := h a
    rw [List.filterMap_cons, List.filterMap_cons]
    cases hf : f a <;> cases hg : g a <;> simp_all

/-- Whether a filter restricts anything does not depend on rows. -/
theorem Filter.isSome_sense? (f : Filter) (parents : List String) :
    (f.sense? s db options.dialect collection parents rows).isSome =
      (f.sense? s db options.dialect collection parents rows').isSome := by
  suffices hleaves : LeavesKeep (fun t? u? => t?.isSome = u?.isSome) s db options Alias.sequential
      collection (fun _ => True) rows rows' from
    Filter.sense?_rows Truth.isKept_isSome hleaves f parents fun _ _ => trivial
  intro parents key condition hleaf
  cases condition with
  | compare comparisons =>
    rw [FieldCondition.sense?, FieldCondition.sense?]
    cases s.reached? collection parents with
    | none => rw [Option.bind_none, Option.bind_none]
    | some owner =>
      rw [Option.bind_some, Option.bind_some, Truth.isSome_all?, Truth.isSome_all?,
        isEmpty_filterMap_congr (Comparison.isSome_truth? _ _ _ _) comparisons]
  | nested f =>
    rw [FieldCondition.sense?, FieldCondition.sense?]
    rcases hleaf with hstart | ⟨-, hnested⟩
    · have hstart : (parents.isEmpty && (link s.relations collection key).isToMany) = true := hstart
      rw [if_pos hstart, if_pos hstart, Option.isSome_map, Option.isSome_map]
    · exact absurd rfl (hnested f)
  | quantified quantifier f =>
    rw [FieldCondition.sense?, FieldCondition.sense?, Option.isSome_map, Option.isSome_map]

/-- A filter looks at the rows at the parents of its paths only, besides those of its collection. -/
theorem Filter.sense?_congr (f : Filter) (parents : List String) (hroot : rows [] = rows' [])
    (hblank : rows [""] = rows' [""])
    (hpaths : ∀ path ∈ (s.context options names).filterPaths collection parents f,
      rows path.dropLast = rows' path.dropLast) :
    f.sense? s db options.dialect collection parents rows =
      f.sense? s db options.dialect collection parents rows' := by
  refine Filter.sense?_rows Truth.isKept_eq (fun parents key condition hleaf => ?_) f parents hpaths
  -- at the root, all that is asked is asked of the row of the collection
  have hparents : rows parents = rows' parents := by
    rcases hleaf with hstart | ⟨hrow, -⟩
    · have hnil : parents = [] := List.isEmpty_iff.mp (Bool.and_eq_true_iff.mp hstart).1
      rw [hnil, hroot]
    · rwa [List.dropLast_concat] at hrow
  have hasked : ∀ path owner along, s.asked? collection parents key = some (path, owner, along) →
      rows path = rows' path := by
    intro path owner along hasked
    unfold Schema.asked? at hasked
    split at hasked
    · cases hasked
      exact hroot
    · obtain ⟨found, -, hfound⟩ := Option.map_eq_some_iff.mp hasked
      rw [← (Prod.mk.inj hfound).1]
      split
      · exact hblank
      · exact hparents
  cases condition with
  | compare comparisons =>
    rw [FieldCondition.sense?, FieldCondition.sense?, hparents]
  | nested f =>
    rw [FieldCondition.sense?, FieldCondition.sense?]
    rcases hleaf with hstart | ⟨-, hnested⟩
    · have hstart : (parents.isEmpty && (link s.relations collection key).isToMany) = true := hstart
      rw [if_pos hstart, if_pos hstart]
      refine Option.map_congr ?_
      rintro ⟨path, owner, along⟩ hsome
      dsimp only
      rw [hasked path owner along hsome]
    · exact absurd rfl (hnested f)
  | quantified quantifier f =>
    rw [FieldCondition.sense?, FieldCondition.sense?]
    refine Option.map_congr ?_
    rintro ⟨path, owner, along⟩ hsome
    dsimp only
    rw [hasked path owner along hsome]

/-! ## Rows chosen anew -/

theorem Filter.sense?_of (x : Clause) (parents : List String) :
    (Filter.of x).sense? s db options.dialect collection parents rows =
      x.sense? s db options.dialect collection parents rows := by
  rw [Filter.of, Filter.sense?, clauseSenses, clauseSenses, List.append_nil]
  cases x.sense? s db options.dialect collection parents rows with
  | none => rfl
  | some t => exact congrArg some (Truth.and_yes t)

theorem clauseSenses_append (parents : List String) (before after : List Clause) :
    clauseSenses s db options.dialect collection parents rows (before ++ after) =
      clauseSenses s db options.dialect collection parents rows before ++
        clauseSenses s db options.dialect collection parents rows after := by
  simp only [clauseSenses_eq_flatMap, List.flatMap_append]

theorem filterSenses_append (parents : List String) (before after : List Filter) :
    filterSenses s db options.dialect collection parents rows (before ++ after) =
      filterSenses s db options.dialect collection parents rows before ++
        filterSenses s db options.dialect collection parents rows after := by
  simp only [filterSenses_eq_flatMap, List.flatMap_append]

/-- A condition that holds once it is exchanged holds as it was, on the same rows or on others, which
are the same ones to all filters along the further paths. -/
structure Exchange.Moves (s : Schema) (db : Database E) (options : Options) (names : Nat → String)
    (collection : String) (further : List String → Prop) (rows rows' : Placed E) (e : Exchange) :
    Prop where
  further : ∀ (f : Filter) (parents : List String),
    (∀ path ∈ (s.context options names).filterPaths collection parents f, further path) →
    f.sense? s db options.dialect collection parents rows =
      f.sense? s db options.dialect collection parents rows'
  isSome : (e.old? s db options.dialect collection rows).isSome =
    (e.new? s db options.dialect collection rows).isSome
  yes : e.new? s db options.dialect collection rows = some .yes →
    e.old? s db options.dialect collection rows = some .yes ∨
      e.old? s db options.dialect collection rows' = some .yes

mutual
/-- A filter that holds once a condition is exchanged holds as it was, on the same rows or on those
that the condition moves to. -/
theorem Filter.Exchanges.eq_yes_or
    (he : e.Moves s db options names collection further rows rows') :
    ∀ {parents : List String} {f g : Filter},
      f.Exchanges (s.context options names) collection further e parents g →
      g.sense? s db options.dialect collection parents rows = some .yes →
        f.sense? s db options.dialect collection parents rows = some .yes ∨
          f.sense? s db options.dialect collection parents rows' = some .yes
  | parents, _, _, .clause before after (y := y) h hfurther, hyes => by
    have hothers := he.further ⟨before ++ after⟩ parents hfurther
    rw [Filter.sense?, Filter.sense?, clauseSenses_append, clauseSenses_append] at hothers
    rw [Filter.sense?_clause] at hyes
    rw [Filter.sense?_clause, Filter.sense?_clause]
    by_cases hnew : y.sense? s db options.dialect collection parents rows = some .yes
    · rw [hnew, Truth.all?_within_yes] at hyes
      refine (h.eq_yes_or he hnew).imp (fun hold => ?_) fun hold => ?_
      · rw [hold, Truth.all?_within_yes, hyes]
      · rw [hold, Truth.all?_within_yes, ← hothers, hyes]
    · have hboth := h.lift Truth.isKept_isSome he.isSome
      exact .inl ((Truth.isKept_entails.all _ _ ⟨hboth.symm, fun h => absurd h hnew⟩).yes hyes)

theorem Clause.Exchanges.eq_yes_or
    (he : e.Moves s db options names collection further rows rows') :
    ∀ {parents : List String} {x y : Clause},
      x.Exchanges (s.context options names) collection further e parents y →
      y.sense? s db options.dialect collection parents rows = some .yes →
        x.sense? s db options.dialect collection parents rows = some .yes ∨
          x.sense? s db options.dialect collection parents rows' = some .yes
  | parents, _, _, .all before after (g := g) h hfurther, hyes => by
    have hothers := he.further (.of (.all (before ++ after))) parents (by
      rw [Filter.of, Context.filterPaths, Context.clausesPaths, Context.clausesPaths,
        Context.clausePaths, List.append_nil]
      exact hfurther)
    rw [Filter.sense?_of, Filter.sense?_of, Clause.sense?, Clause.sense?, filterSenses_append,
      filterSenses_append] at hothers
    rw [Clause.sense?, filterSenses_within] at hyes
    rw [Clause.sense?, Clause.sense?, filterSenses_within, filterSenses_within]
    by_cases hnew : g.sense? s db options.dialect collection parents rows = some .yes
    · rw [hnew, Truth.all?_within_yes] at hyes
      refine (h.eq_yes_or he hnew).imp (fun hold => ?_) fun hold => ?_
      · rw [hold, Truth.all?_within_yes, hyes]
      · rw [hold, Truth.all?_within_yes, ← hothers, hyes]
    · have hboth := h.lift Truth.isKept_isSome he.isSome
      exact .inl ((Truth.isKept_entails.all _ _ ⟨hboth.symm, fun h => absurd h hnew⟩).yes hyes)
  | parents, _, _, .any before after (g := g) h, hyes => by
    rw [Clause.sense?, filterSenses_within] at hyes
    rw [Clause.sense?, Clause.sense?, filterSenses_within, filterSenses_within,
      h.holdsAlways_eq before after]
    split at hyes
    · cases hyes
    · next hrestricts =>
      rw [if_neg hrestricts, if_neg hrestricts]
      by_cases hnew : g.sense? s db options.dialect collection parents rows = some .yes
      · refine (h.eq_yes_or he hnew).imp (fun hold => ?_) fun hold => ?_
        · rw [hold, Truth.any?_eq_yes]
          simp
        · rw [hold, Truth.any?_eq_yes]
          simp
      · have hboth := h.lift Truth.isKept_isSome he.isSome
        exact .inl ((Truth.isKept_entails.any _ _ ⟨hboth.symm, fun h => absurd h hnew⟩).yes hyes)
  | _, _, _, .here, hyes => by
    rw [Clause.sense?] at hyes
    rw [Clause.sense?, Clause.sense?]
    exact he.yes hyes
  | parents, _, _, .onward key hstart h, hyes => by
    have hstart : ¬(parents.isEmpty && (link s.relations collection key).isToMany) = true :=
      Bool.eq_false_iff.mp hstart
    rw [Clause.sense?, FieldCondition.sense?, if_neg hstart] at hyes
    rw [Clause.sense?, Clause.sense?, FieldCondition.sense?, FieldCondition.sense?, if_neg hstart,
      if_neg hstart]
    exact h.eq_yes_or he hyes
end

end

end JsonSql
