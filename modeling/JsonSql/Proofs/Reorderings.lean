import JsonSql.Proofs.DottedKeys
import JsonSql.Proofs.Senses
import Mathlib.Logic.Relation

set_option autoImplicit false

/-!
# Reorderings of filters

The clauses of a filter, the filters of a group and the comparisons of a field come in an order,
which carries no meaning.  A reordering permutes any of these lists, at any depth
(`Filter.Reorders`): one list at a time (`Filter.Permutes`), and as often as needed.  The paths of
a reordered filter are the same in another order, and it asks the same of rows
(`Filter.Reorders.sense?_eq`).
-/

namespace JsonSql

open JsonSql.Sql

/-! ## Permuted lists -/

mutual
/-- The second filter is the first one with the clauses, filters or comparisons of one list in
another order. -/
inductive Filter.Permutes : Filter → Filter → Prop
  | clauses {xs ys : List Clause} : xs.Perm ys → Filter.Permutes ⟨xs⟩ ⟨ys⟩
  | within (before after : List Clause) {x y : Clause} :
      x.Permutes y → Filter.Permutes ⟨before ++ x :: after⟩ ⟨before ++ y :: after⟩

/-- The second clause is the first one with one list in another order. -/
inductive Clause.Permutes : Clause → Clause → Prop
  | all {fs gs : List Filter} : fs.Perm gs → Clause.Permutes (.all fs) (.all gs)
  | any {fs gs : List Filter} : fs.Perm gs → Clause.Permutes (.any fs) (.any gs)
  | withinAll (before after : List Filter) {f g : Filter} :
      f.Permutes g → Clause.Permutes (.all (before ++ f :: after)) (.all (before ++ g :: after))
  | withinAny (before after : List Filter) {f g : Filter} :
      f.Permutes g → Clause.Permutes (.any (before ++ f :: after)) (.any (before ++ g :: after))
  | field (key : String) {x y : FieldCondition} :
      x.Permutes y → Clause.Permutes (.field key x) (.field key y)

/-- The same is asked of a field but for the order of one list. -/
inductive FieldCondition.Permutes : FieldCondition → FieldCondition → Prop
  | compare {xs ys : List Comparison} :
      xs.Perm ys → FieldCondition.Permutes (.compare xs) (.compare ys)
  | nested {f g : Filter} : f.Permutes g → FieldCondition.Permutes (.nested f) (.nested g)
  | quantified (quantifier : Quantifier) {f g : Filter} :
      f.Permutes g →
      FieldCondition.Permutes (.quantified quantifier f) (.quantified quantifier g)
end

theorem Filter.Permutes.refl (f : Filter) : f.Permutes f := by
  obtain ⟨clauses⟩ := f
  exact .clauses (List.Perm.refl clauses)

mutual
theorem Filter.Permutes.symm : ∀ {f g : Filter}, f.Permutes g → g.Permutes f
  | _, _, .clauses hperm => .clauses hperm.symm
  | _, _, .within before after h => .within before after h.symm

theorem Clause.Permutes.symm : ∀ {x y : Clause}, x.Permutes y → y.Permutes x
  | _, _, .all hperm => .all hperm.symm
  | _, _, .any hperm => .any hperm.symm
  | _, _, .withinAll before after h => .withinAll before after h.symm
  | _, _, .withinAny before after h => .withinAny before after h.symm
  | _, _, .field key h => .field key h.symm

theorem FieldCondition.Permutes.symm : ∀ {x y : FieldCondition}, x.Permutes y → y.Permutes x
  | _, _, .compare hperm => .compare hperm.symm
  | _, _, .nested h => .nested h.symm
  | _, _, .quantified quantifier h => .quantified quantifier h.symm
end

/-- The second filter is the first one with any of its lists in another order, at any depth. -/
def Filter.Reorders : Filter → Filter → Prop := Relation.ReflTransGen Filter.Permutes

theorem Filter.Reorders.symm {f g : Filter} (h : f.Reorders g) : g.Reorders f := by
  induction h with
  | refl => exact .refl
  | tail _ hstep ih => exact .head hstep.symm ih

/-! ## Unfolded forms -/

theorem Clause.permutes_along {x y : FieldCondition} (h : x.Permutes y) (segments : List String) :
    (Clause.along segments x).Permutes (.along segments y) := by
  induction segments with
  | nil => exact .field "" h
  | cons segment rest ih =>
    cases rest with
    | nil => exact .field segment h
    | cons next more => exact .field (Text.trim segment) (.nested (.within [] [] ih))

mutual
/-- Unfolding keeps the order of all lists. -/
theorem Filter.Permutes.unfolded :
    ∀ {f g : Filter}, f.Permutes g → f.unfolded.Permutes g.unfolded
  | _, _, .clauses hperm => by
    rw [Filter.unfolded, Filter.unfolded, Filter.unfoldedClauses_eq_map,
      Filter.unfoldedClauses_eq_map]
    exact .clauses (hperm.map _)
  | _, _, .within before after h => by
    rw [Filter.unfolded, Filter.unfolded, Filter.unfoldedClauses_eq_map,
      Filter.unfoldedClauses_eq_map, List.map_append, List.map_append, List.map_cons, List.map_cons]
    exact .within _ _ h.unfolded

theorem Clause.Permutes.unfolded :
    ∀ {x y : Clause}, x.Permutes y → x.unfolded.Permutes y.unfolded
  | _, _, .all hperm => by
    rw [Clause.unfolded, Clause.unfolded, Filter.unfoldedAll_eq_map, Filter.unfoldedAll_eq_map]
    exact .all (hperm.map _)
  | _, _, .any hperm => by
    rw [Clause.unfolded, Clause.unfolded, Filter.unfoldedAll_eq_map, Filter.unfoldedAll_eq_map]
    exact .any (hperm.map _)
  | _, _, .withinAll before after h => by
    rw [Clause.unfolded, Clause.unfolded, Filter.unfoldedAll_eq_map, Filter.unfoldedAll_eq_map,
      List.map_append, List.map_append, List.map_cons, List.map_cons]
    exact .withinAll _ _ h.unfolded
  | _, _, .withinAny before after h => by
    rw [Clause.unfolded, Clause.unfolded, Filter.unfoldedAll_eq_map, Filter.unfoldedAll_eq_map,
      List.map_append, List.map_append, List.map_cons, List.map_cons]
    exact .withinAny _ _ h.unfolded
  | _, _, .field key h => by
    rw [Clause.unfolded, Clause.unfolded]
    exact Clause.permutes_along h.unfolded _

theorem FieldCondition.Permutes.unfolded :
    ∀ {x y : FieldCondition}, x.Permutes y → x.unfolded.Permutes y.unfolded
  | _, _, .compare hperm => .compare hperm
  | _, _, .nested h => .nested h.unfolded
  | _, _, .quantified quantifier h => .quantified quantifier h.unfolded
end

theorem Filter.Reorders.unfolded {f g : Filter} (h : f.Reorders g) :
    f.unfolded.Reorders g.unfolded :=
  h.lift Filter.unfolded fun _ _ hstep => hstep.unfolded

/-- A filter of which one list is permuted is without clauses if the other one is. -/
theorem Filter.Permutes.isEmpty_eq {f g : Filter} (h : f.Permutes g) : f.isEmpty = g.isEmpty := by
  cases h with
  | clauses hperm => exact hperm.isEmpty_eq
  | within before after _ => cases before <;> rfl

theorem holdsAlways_of_perm {fs gs : List Filter} (h : fs.Perm gs) :
    holdsAlways fs = holdsAlways gs :=
  h.any_eq

theorem holdsAlways_within {f g : Filter} (h : f.Permutes g) (before after : List Filter) :
    holdsAlways (before ++ f :: after) = holdsAlways (before ++ g :: after) := by
  simp [holdsAlways, h.isEmpty_eq]

/-! ## Paths -/

namespace Context

variable (c : Context) (collection : String) (parents : List String)

theorem clausesPaths_eq_flatMap (clauses : List Clause) :
    c.clausesPaths collection parents clauses =
      clauses.flatMap (c.clausePaths collection parents) := by
  induction clauses with
  | nil => rfl
  | cons clause rest ih => rw [clausesPaths, ih, List.flatMap_cons]

theorem filtersPaths_eq_flatMap (filters : List Filter) :
    c.filtersPaths collection parents filters =
      filters.flatMap (c.filterPaths collection parents) := by
  induction filters with
  | nil => rfl
  | cons f rest ih => rw [filtersPaths, ih, List.flatMap_cons]

end Context

theorem perm_flatMap_within {α β : Type} {f : α → List β} {x y : α} (h : (f x).Perm (f y))
    (before after : List α) :
    ((before ++ x :: after).flatMap f).Perm ((before ++ y :: after).flatMap f) := by
  rw [List.flatMap_append, List.flatMap_append, List.flatMap_cons, List.flatMap_cons]
  exact (h.append_right _).append_left _

mutual
/-- The paths of a filter of which one list is permuted are permuted. -/
theorem Filter.Permutes.filterPaths (c : Context) (collection : String) :
    ∀ {f g : Filter}, f.Permutes g → ∀ parents,
      (c.filterPaths collection parents f).Perm (c.filterPaths collection parents g)
  | _, _, .clauses hperm, parents => by
    rw [Context.filterPaths, Context.filterPaths, Context.clausesPaths_eq_flatMap,
      Context.clausesPaths_eq_flatMap]
    exact hperm.flatMap_right _
  | _, _, .within before after h, parents => by
    rw [Context.filterPaths, Context.filterPaths, Context.clausesPaths_eq_flatMap,
      Context.clausesPaths_eq_flatMap]
    exact perm_flatMap_within (h.clausePaths c collection parents) before after

theorem Clause.Permutes.clausePaths (c : Context) (collection : String) :
    ∀ {x y : Clause}, x.Permutes y → ∀ parents,
      (c.clausePaths collection parents x).Perm (c.clausePaths collection parents y)
  | _, _, .all hperm, parents => by
    rw [Context.clausePaths, Context.clausePaths, Context.filtersPaths_eq_flatMap,
      Context.filtersPaths_eq_flatMap]
    exact hperm.flatMap_right _
  | _, _, .any hperm, parents => by
    rw [Context.clausePaths, Context.clausePaths, Context.filtersPaths_eq_flatMap,
      Context.filtersPaths_eq_flatMap, holdsAlways_of_perm hperm]
    split
    · exact List.Perm.refl _
    · exact hperm.flatMap_right _
  | _, _, .withinAll before after h, parents => by
    rw [Context.clausePaths, Context.clausePaths, Context.filtersPaths_eq_flatMap,
      Context.filtersPaths_eq_flatMap]
    exact perm_flatMap_within (h.filterPaths c collection parents) before after
  | _, _, .withinAny before after h, parents => by
    rw [Context.clausePaths, Context.clausePaths, Context.filtersPaths_eq_flatMap,
      Context.filtersPaths_eq_flatMap, holdsAlways_within h]
    split
    · exact List.Perm.refl _
    · exact perm_flatMap_within (h.filterPaths c collection parents) before after
  | _, _, .field key h, parents => by
    rw [Context.clausePaths, Context.clausePaths]
    split
    · exact List.Perm.refl _
    · exact h.conditionPaths c collection (parents ++ [Text.trim key])

theorem FieldCondition.Permutes.conditionPaths (c : Context) (collection : String) :
    ∀ {x y : FieldCondition}, x.Permutes y → ∀ path,
      (c.conditionPaths collection path x).Perm (c.conditionPaths collection path y)
  | _, _, .compare _, path => by
    rw [Context.conditionPaths, Context.conditionPaths]
  | _, _, .nested h, path => by
    rw [Context.conditionPaths, Context.conditionPaths]
    exact h.filterPaths c collection path
  | _, _, .quantified quantifier _, path => by
    rw [Context.conditionPaths, Context.conditionPaths]
end

theorem Filter.Reorders.filterPaths {f g : Filter} (h : f.Reorders g) (c : Context)
    (collection : String) (parents : List String) :
    (c.filterPaths collection parents f).Perm (c.filterPaths collection parents g) := by
  induction h with
  | refl => exact List.Perm.refl _
  | tail _ hstep ih => exact ih.trans (hstep.filterPaths c collection parents)

/-! ## Truth values -/

namespace Truth

theorem and_left_comm (a b c : Truth) : a.and (b.and c) = b.and (a.and c) := by
  cases a <;> cases b <;> cases c <;> rfl

theorem or_left_comm (a b c : Truth) : a.or (b.or c) = b.or (a.or c) := by
  cases a <;> cases b <;> cases c <;> rfl

theorem all?_of_perm {ts us : List Truth} (h : ts.Perm us) : all? ts = all? us := by
  cases ts with
  | nil => rw [h.nil_eq]
  | cons t rest =>
    cases us with
    | nil => cases h.symm.nil_eq
    | cons u others => exact congrArg some (h.foldr_eq' (fun a _ b _ c => and_left_comm b a c) yes)

theorem any?_of_perm {ts us : List Truth} (h : ts.Perm us) : any? ts = any? us := by
  cases ts with
  | nil => rw [h.nil_eq]
  | cons t rest =>
    cases us with
    | nil => cases h.symm.nil_eq
    | cons u others => exact congrArg some (h.foldr_eq' (fun a _ b _ c => or_left_comm b a c) no)

end Truth

section

variable {E : Engine} (s : Schema) (db : Database E) (d : Dialect) (collection : String)
  (parents : List String) (rows : Placed E)

theorem clauseSenses_eq_flatMap (clauses : List Clause) :
    clauseSenses s db d collection parents rows clauses =
      clauses.flatMap fun clause => (clause.sense? s db d collection parents rows).toList := by
  induction clauses with
  | nil => rw [clauseSenses, List.flatMap_nil]
  | cons clause rest ih => rw [clauseSenses, ih, List.flatMap_cons]

theorem filterSenses_eq_flatMap (filters : List Filter) :
    filterSenses s db d collection parents rows filters =
      filters.flatMap fun f => (f.sense? s db d collection parents rows).toList := by
  induction filters with
  | nil => rw [filterSenses, List.flatMap_nil]
  | cons f rest ih => rw [filterSenses, ih, List.flatMap_cons]

end

section

variable {E : Engine} (s : Schema) (db : Database E) (d : Dialect)

mutual
/-- A filter of which one list is permuted has the truth value that it had before. -/
theorem Filter.Permutes.sense?_eq : ∀ {f g : Filter}, f.Permutes g →
    ∀ (collection : String) (parents : List String) (rows : Placed E),
      f.sense? s db d collection parents rows = g.sense? s db d collection parents rows
  | _, _, .clauses hperm, collection, parents, rows => by
    rw [Filter.sense?, Filter.sense?, clauseSenses_eq_flatMap, clauseSenses_eq_flatMap]
    exact Truth.all?_of_perm (hperm.flatMap_right _)
  | _, _, .within before after h, collection, parents, rows => by
    rw [Filter.sense?, Filter.sense?, clauseSenses_eq_flatMap, clauseSenses_eq_flatMap,
      List.flatMap_append, List.flatMap_append, List.flatMap_cons, List.flatMap_cons,
      h.sense?_eq collection parents rows]

theorem Clause.Permutes.sense?_eq : ∀ {x y : Clause}, x.Permutes y →
    ∀ (collection : String) (parents : List String) (rows : Placed E),
      x.sense? s db d collection parents rows = y.sense? s db d collection parents rows
  | _, _, .all hperm, collection, parents, rows => by
    rw [Clause.sense?, Clause.sense?, filterSenses_eq_flatMap, filterSenses_eq_flatMap]
    exact Truth.all?_of_perm (hperm.flatMap_right _)
  | _, _, .any hperm, collection, parents, rows => by
    rw [Clause.sense?, Clause.sense?, filterSenses_eq_flatMap, filterSenses_eq_flatMap,
      holdsAlways_of_perm hperm, Truth.any?_of_perm (hperm.flatMap_right _)]
  | _, _, .withinAll before after h, collection, parents, rows => by
    rw [Clause.sense?, Clause.sense?, filterSenses_eq_flatMap, filterSenses_eq_flatMap,
      List.flatMap_append, List.flatMap_append, List.flatMap_cons, List.flatMap_cons,
      h.sense?_eq collection parents rows]
  | _, _, .withinAny before after h, collection, parents, rows => by
    rw [Clause.sense?, Clause.sense?, filterSenses_eq_flatMap, filterSenses_eq_flatMap,
      List.flatMap_append, List.flatMap_append, List.flatMap_cons, List.flatMap_cons,
      h.sense?_eq collection parents rows, holdsAlways_within h]
  | _, _, .field key h, collection, parents, rows => by
    rw [Clause.sense?, Clause.sense?]
    exact h.sense?_eq collection parents rows key

theorem FieldCondition.Permutes.sense?_eq : ∀ {x y : FieldCondition}, x.Permutes y →
    ∀ (collection : String) (parents : List String) (rows : Placed E) (key : String),
      x.sense? s db d collection parents rows key = y.sense? s db d collection parents rows key
  | _, _, .compare hperm, collection, parents, rows, key => by
    rw [FieldCondition.sense?, FieldCondition.sense?]
    exact congrArg _ (funext fun owner => Truth.all?_of_perm (hperm.filterMap _))
  | _, _, .nested h, collection, parents, rows, key => by
    have hsense := h.sense?_eq
    rw [FieldCondition.sense?, FieldCondition.sense?, hsense collection _ rows]
    simp only [hsense]
  | _, _, .quantified quantifier h, collection, parents, rows, key => by
    have hsense := h.sense?_eq
    rw [FieldCondition.sense?, FieldCondition.sense?]
    simp only [hsense]
end

/-- A reordered filter asks the same of rows. -/
theorem Filter.Reorders.sense?_eq {f g : Filter} (h : f.Reorders g) (collection : String)
    (parents : List String) (rows : Placed E) :
    f.sense? s db d collection parents rows = g.sense? s db d collection parents rows := by
  induction h with
  | refl => rfl
  | tail _ hstep ih => exact ih.trans (hstep.sense?_eq s db d collection parents rows)

end

end JsonSql
