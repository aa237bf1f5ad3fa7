import JsonSql.Proofs.Counts
import JsonSql.Proofs.Selects
import Mathlib.Data.List.Nodup

set_option autoImplicit false

/-!
# Issued aliases

Which aliases a step of a compilation puts into a statement.  Each join and each count of related
rows takes the next alias, so the aliases that a step introduces have different numbers among those
issued during the step (`Issued`), and steps one after another introduce different ones.  What is
recorded for a path stays recorded, so columns that were read stay as they are (`Reads`).
-/

namespace JsonSql

open JsonSql.Sql

/-! ## Numbers of aliases -/

/-- Aliases with different numbers, from `k` on and before `k'`. -/
structure Issued (names : Nat → String) (k : Nat) (aliases : List String) (k' : Nat) : Prop where
  grows : k ≤ k'
  numbered : ∃ numbers : List Nat, aliases.Perm (numbers.map names) ∧ numbers.Nodup ∧
    ∀ j ∈ numbers, k ≤ j ∧ j < k'

namespace Issued

variable {names : Nat → String} {aliases others : List String} {k k₁ k' : Nat}

theorem nil (h : k ≤ k') : Issued names k [] k' :=
  ⟨h, [], .nil, List.nodup_nil, fun j hj => (by cases hj)⟩

theorem next (h : k < k') : Issued names k [names k] k' := by
  refine ⟨Nat.le_of_lt h, [k], .refl _, List.pairwise_singleton _ _, ?_⟩
  intro j hj
  rw [List.mem_singleton.mp hj]
  exact ⟨Nat.le_refl k, h⟩

/-- Aliases of two steps, one after the other, are different. -/
theorem append (hfirst : Issued names k aliases k₁) (hsecond : Issued names k₁ others k') :
    Issued names k (aliases ++ others) k' := by
  obtain ⟨hle, first, hperm, hnodup, hbounds⟩ := hfirst
  obtain ⟨hle', second, hperm', hnodup', hbounds'⟩ := hsecond
  refine ⟨Nat.le_trans hle hle', first ++ second, ?_, ?_, ?_⟩
  · rw [List.map_append]
    exact hperm.append hperm'
  · refine List.nodup_append.mpr ⟨hnodup, hnodup', ?_⟩
    rintro i hi j hj rfl
    exact absurd (hbounds i hi).2 (Nat.not_lt.mpr (hbounds' i hj).1)
  · intro j hj
    rcases List.mem_append.mp hj with hj | hj
    · exact ⟨(hbounds j hj).1, Nat.lt_of_lt_of_le (hbounds j hj).2 hle'⟩
    · exact ⟨Nat.le_trans hle (hbounds' j hj).1, (hbounds' j hj).2⟩

/-- The order of the aliases does not count. -/
theorem perm (h : Issued names k aliases k') (hperm : aliases.Perm others) :
    Issued names k others k' := by
  obtain ⟨hle, numbers, hnumbers, hnumbered⟩ := h
  exact ⟨hle, numbers, hperm.symm.trans hnumbers, hnumbered⟩

/-- No alias is among them twice if no alias is issued twice. -/
theorem nodup (h : Issued names k aliases k') (hinjective : Function.Injective names) :
    aliases.Nodup := by
  obtain ⟨-, numbers, hperm, hnodup, -⟩ := h
  exact hperm.nodup_iff.mpr (List.Nodup.map hinjective hnodup)

end Issued

/-! ## Joins -/

namespace Context

variable {c : Context} {inner : Bool} {collection : String}

/-- Joins put behind others, each under a new alias. -/
def Extends (c : Context) (joins : List Join) (k : Nat) (scope : Scope) (k' : Nat) : Prop :=
  ∃ more, scope.query.joins = joins ++ more ∧ Issued c.names k (joinNames more) k'

theorem extends_refl (scope : Scope) (k : Nat) : c.Extends scope.query.joins k scope k :=
  ⟨[], (List.append_nil _).symm, .nil (Nat.le_refl k)⟩

theorem extends_of_joinStep {joins : List Join} {k₀ k k' : Nat} {path before : List String}
    {scope scope' : Scope} {segment target : String} {place : Place} {condition : Expr}
    (h : c.Extends joins k₀ scope k)
    (hstep : JoinStep c collection path scope k before segment place target condition scope' k') :
    c.Extends joins k₀ scope' k' := by
  obtain ⟨more, hjoins, hissued⟩ := h
  have hgrows := grows_joinTarget _ _ _ _ hstep.joined
  refine ⟨more ++ [⟨⟨target, some (c.names k)⟩, condition⟩], ?_, ?_⟩
  · rw [hstep.result, Query.addJoin_joins, hjoins, List.append_assoc]
  · rw [joinNames_append]
    exact hissued.append (.next (Nat.lt_of_succ_le hgrows))

theorem extends_of_joinPath {scope scope' : Scope} {path : List String} {several : Bool}
    {k k' : Nat} (h : (c.joinPath inner collection scope path).Gives k (scope', several) k') :
    c.Extends scope.query.joins k scope' k' :=
  joinPath_keeps (P := c.Extends scope.query.joins k) extends_of_joinStep (extends_refl scope k) h

theorem extends_of_joinFilter {scope scope' : Scope} {parents : List String} {f : Filter}
    {several : Bool} {k k' : Nat}
    (h : (c.joinFilter inner collection parents scope f).Gives k (scope', several) k') :
    c.Extends scope.query.joins k scope' k' :=
  joinFilter_keeps (P := c.Extends scope.query.joins k) (fun _ => extends_of_joinStep)
    (extends_refl scope k) h

theorem sameButJoins_of_joinPath {q : Query} {scope scope' : Scope} {path : List String}
    {several : Bool} {k k' : Nat}
    (hjoin : (c.joinPath inner collection scope path).Gives k (scope', several) k')
    (h : sameButJoins q scope.query) : sameButJoins q scope'.query := by
  refine joinPath_keeps (P := fun s _ => sameButJoins q s.query) ?_ h hjoin
  intro scope k before segment place target condition scope' k' h hstep
  rw [sameButJoins] at h ⊢
  rw [hstep.result, h]
  rfl

/-! ## Records of joins -/

/-- What is recorded for a path stays recorded. -/
def Keeps (hops hops' : Hops) : Prop :=
  ∀ path hop, hops.get? path = some hop → hops'.get? path = some hop

theorem keeps_of_joinStep {hops : Hops} {k k' : Nat} {path before : List String}
    {scope scope' : Scope} {segment target : String} {place : Place} {condition : Expr}
    (h : Keeps hops scope.hops)
    (hstep : JoinStep c collection path scope k before segment place target condition scope' k') :
    Keeps hops scope'.hops := by
  intro other hop hfound
  have hold := h other hop hfound
  rw [hstep.result, Hops.get?_insert_of_ne _ ?_, hold]
  intro hkey
  have hfresh := hstep.fresh
  rw [Hops.get?, ← hkey, ← Hops.get?, hold] at hfresh
  cases hfresh

theorem keeps_of_joinPath {scope scope' : Scope} {path : List String} {several : Bool}
    {k k' : Nat} (h : (c.joinPath inner collection scope path).Gives k (scope', several) k') :
    Keeps scope.hops scope'.hops :=
  joinPath_keeps (P := fun s _ => Keeps scope.hops s.hops) keeps_of_joinStep
    (fun _ _ hfound => hfound) h

theorem keeps_of_joinFilter {scope scope' : Scope} {parents : List String} {f : Filter}
    {several : Bool} {k k' : Nat}
    (h : (c.joinFilter inner collection parents scope f).Gives k (scope', several) k') :
    Keeps scope.hops scope'.hops :=
  joinFilter_keeps (P := fun s _ => Keeps scope.hops s.hops) (fun _ => keeps_of_joinStep)
    (fun _ _ hfound => hfound) h

/-! ## Columns -/

/-- An expression reads the field at the end of a path: it is made of a column of the join that is
recorded for the parents of the path or, without parents, of the root. -/
def Reads (hops : Hops) (collection : String) (path : List String) (e : Expr) : Prop :=
  ∃ place, placeOf hops collection path.dropLast (Hops.key path) = .ok place ∧
    IsColumn [place.table] e

theorem Reads.mono {hops hops' : Hops} {path : List String} {e : Expr}
    (h : Reads hops collection path e) (hkeeps : Keeps hops hops') :
    Reads hops' collection path e := by
  obtain ⟨place, hplace, hcolumn⟩ := h
  refine ⟨place, ?_, hcolumn⟩
  rcases placeOf_eq_ok hplace with ⟨hroot, rfl⟩ | ⟨hparents, hop, hfound, rfl⟩
  · rw [placeOf, if_pos hroot]
  · rw [placeOf, if_neg hparents, hkeeps _ _ hfound]

/-- A count of related rows takes the next alias. -/
theorem countRows?_issued {table : String} {link : Link} {e : Expr} {k k' : Nat}
    (h : (c.countRows? collection table link).Gives k (some e) k') :
    Issued c.names k e.introduced k' := by
  obtain ⟨r, primary, condition, -, rfl, rfl, hlink, -⟩ := countRows?_gives h
  have hcount : (Expr.subquery {
      items := [⟨.countRows, none⟩]
      source := some ⟨r.collection, some (c.names k)⟩
      condition := some condition }).introduced = [c.names k] := by
    rw [introduced_subquery, Query.introduced_eq]
    simp [Query.ownAliases, introduced_predicates, hlink.introduced, Expr.countRows, Expr.count,
      Expr.apply]
  rw [hcount]
  exact .next (Nat.lt_succ_self k)

/-- A function of a field introduces an alias only if it counts rows. -/
theorem applyFunction_issued {place : Place} {function path field : String} {type : FieldType}
    {e : Expr} {k k' : Nat}
    (h : (c.applyFunction place function path field type).Gives k e k') :
    Issued c.names k e.introduced k' := by
  rcases applyFunction_gives h with ⟨part, kind, rfl, rfl⟩ | ⟨hlength, rfl⟩ | ⟨-, hcount⟩
  · rw [Expr.introduced_eq_nil (selects_datePart _ part kind _ field)]
    exact .nil (Nat.le_refl k')
  · rw [Expr.introduced_eq_nil (selects_jsonArrayLength? hlength)]
    exact .nil (Nat.le_refl k')
  · exact countRows?_issued hcount

/-- A resolved column reads its path, and introduces an alias only if it counts rows. -/
theorem column_issued {hops : Hops} {path : List String} {column : Column} {k k' : Nat}
    (h : (c.column hops collection path).Gives k column k') :
    Reads hops collection path column.expr ∧ Issued c.names k column.expr.introduced k' := by
  obtain ⟨last, place, field, -, hplace, -, h⟩ := column_gives h
  have hmem : place.table ∈ [place.table] := List.mem_cons_self
  rcases h with ⟨-, -, rfl, rfl⟩ | ⟨function, e, -, he, rfl⟩
  · exact ⟨⟨place, hplace, .plain _ hmem⟩,
      (introduced_of _ _).symm ▸ .nil (Nat.le_refl k')⟩
  · exact ⟨⟨place, hplace, isColumn_of_applyFunction hmem he⟩, applyFunction_issued he⟩

end Context

end JsonSql
