import Mathlib.Data.List.Forall2
import JsonSql.Proofs.Run

set_option autoImplicit false

/-!
# Compilations in lockstep

Two compilations run in lockstep if they issue aliases at the same points and where both succeed
their results are related (`Compile.InStep`).  A comparison may be exact: then one fails if and only
if the other one does, and for the same reason.  A comparison that is not exact says nothing of
failures, so that either compilation may fail alone.
-/

namespace JsonSql

open JsonSql.Sql

/-- Related results, or the same failure; if the comparison is not exact, either may fail alone. -/
inductive Except.Matches {ε α β : Type} (exact : Prop) (R : α → β → Prop) :
    Except ε α → Except ε β → Prop
  | ok {a : α} {b : β} : R a b → Matches exact R (.ok a) (.ok b)
  | error (e : ε) : Matches exact R (.error e) (.error e)
  | left {e : ε} {y : Except ε β} : ¬exact → Matches exact R (.error e) y
  | right {x : Except ε α} {e : ε} : ¬exact → Matches exact R x (.error e)

namespace Except.Matches

variable {ε α β : Type} {exact : Prop} {R : α → β → Prop} {x : Except ε α} {y : Except ε β}

theorem of_ok {a : α} {b : β} (h : Matches exact R (.ok a : Except ε α) (.ok b)) : R a b := by
  cases h
  assumption

theorem mono {S : α → β → Prop} (h : Matches exact R x y) (hnext : ∀ a b, R a b → S a b) :
    Matches exact S x y := by
  cases h with
  | ok hab => exact .ok (hnext _ _ hab)
  | error e => exact .error e
  | left hloose => exact .left hloose
  | right hloose => exact .right hloose

/-- What functions make of results that match. -/
theorem map {γ δ : Type} {S : γ → δ → Prop} {f : α → γ} {g : β → δ} (h : Matches exact R x y)
    (hnext : ∀ a b, R a b → S (f a) (g b)) : Matches exact S (x.map f) (y.map g) := by
  cases h with
  | ok hab => exact .ok (hnext _ _ hab)
  | error e => exact .error e
  | left hloose => exact .left hloose
  | right hloose => exact .right hloose

/-- A comparison that is not exact fails only by results that are not related. -/
theorem of_loose (hloose : ¬exact) (h : ∀ a b, x = .ok a → y = .ok b → R a b) :
    Matches exact R x y := by
  cases x with
  | error e => exact .left hloose
  | ok a =>
    cases y with
    | error e => exact .right hloose
    | ok b => exact .ok (h a b rfl rfl)

/-- What a function makes of a result is matched by the same function. -/
theorem map_self (f : α → β) (x : Except ε α) : Matches exact (fun a b => b = f a) x (x.map f) := by
  cases x with
  | error e => exact .error e
  | ok a => exact .ok rfl

/-- An exact match by a function is an equation. -/
theorem map_eq {f : α → β} (h : Matches True (fun a b => b = f a) x y) : x.map f = y := by
  cases h with
  | ok hab =>
    rw [hab]
    rfl
  | error e => rfl
  | left hloose => exact absurd trivial hloose
  | right hloose => exact absurd trivial hloose

end Except.Matches

namespace Compile

variable {exact : Prop} {α β γ δ ι : Type} {R : α → β → Prop} {S : γ → δ → Prop}
  {x : Compile α} {y : Compile β}

/-- From every count of aliases, the two give related results and the same count, or fail
alike. -/
def InStep (exact : Prop) (R : α → β → Prop) (x : Compile α) (y : Compile β) : Prop :=
  ∀ k, Except.Matches exact (fun found other => R found.1 other.1 ∧ found.2 = other.2) (x k) (y k)

theorem inStep_pure {a : α} {b : β} (h : R a b) : InStep exact R (pure a) (pure b) :=
  fun _ => .ok ⟨h, rfl⟩

theorem inStep_throw (e : QueryError) : InStep exact R (throw e) (throw e) := fun _ => .error e

theorem InStep.mono {T : α → β → Prop} (h : InStep exact R x y) (hnext : ∀ a b, R a b → T a b) :
    InStep exact T x y :=
  fun k => (h k).mono fun _ _ hab => ⟨hnext _ _ hab.1, hab.2⟩

theorem InStep.bind {f : α → Compile γ} {g : β → Compile δ} (h : InStep exact R x y)
    (hnext : ∀ a b, R a b → InStep exact S (f a) (g b)) :
    InStep exact S (x >>= f) (y >>= g) := by
  intro k
  have hfirst := h k
  simp only [Bind.bind, StateT.bind, Except.bind]
  cases hx : x k with
  | error e =>
    cases hy : y k with
    | error e' =>
      rw [hx, hy] at hfirst
      cases hfirst with
      | error => exact .error e
      | left hloose => exact .left hloose
      | right hloose => exact .right hloose
    | ok b =>
      rw [hx, hy] at hfirst
      cases hfirst with
      | left hloose => exact .left hloose
  | ok a =>
    cases hy : y k with
    | error e' =>
      rw [hx, hy] at hfirst
      cases hfirst with
      | right hloose => exact .right hloose
    | ok b =>
      rw [hx, hy] at hfirst
      obtain ⟨hab, hcount⟩ := hfirst.of_ok
      dsimp only
      rw [← hcount]
      exact hnext a.1 b.1 hab a.2

theorem InStep.map {f : α → γ} {g : β → δ} (h : InStep exact R x y)
    (hnext : ∀ a b, R a b → S (f a) (g b)) : InStep exact S (f <$> x) (g <$> y) := by
  rw [← bind_pure_comp, ← bind_pure_comp]
  exact h.bind fun a b hab => inStep_pure (hnext a b hab)

/-- What a step gives may be looked at. -/
theorem InStep.gives (h : InStep exact R x y) :
    InStep exact (fun a b => R a b ∧ ∃ k k', x.Gives k a k') x y := by
  intro k
  have hfirst := h k
  cases hx : x k with
  | error e =>
    rw [hx] at hfirst
    generalize y k = other at hfirst
    cases hfirst with
    | error => exact .error e
    | left hloose => exact .left hloose
    | right hloose => exact .right hloose
  | ok a =>
    rw [hx] at hfirst
    generalize y k = other at hfirst
    cases hfirst with
    | ok hab => exact .ok ⟨⟨hab.1, k, a.2, hx⟩, hab.2⟩
    | right hloose => exact .right hloose

/-- What one of two steps that are exactly in lockstep gives, the other one matches. -/
theorem InStep.exists_gives {a : α} {k k' : Nat} (h : InStep True R x y) (ha : x.Gives k a k') :
    ∃ b, y.Gives k b k' ∧ R a b := by
  have hstep := h k
  rw [show x k = .ok (a, k') from ha] at hstep
  generalize hy : y k = found at hstep
  cases hstep with
  | ok hab => exact ⟨_, hy.trans (congrArg (fun k => Except.ok (_, k)) hab.2.symm), hab.1⟩
  | right hloose => exact absurd trivial hloose

/-- A computation without aliases. -/
theorem inStep_lift {u : Except QueryError α} {v : Except QueryError β}
    (h : Except.Matches exact R u v) : InStep exact R (liftM u) (liftM v) := by
  intro k
  cases h with
  | ok hab => exact .ok ⟨hab, rfl⟩
  | error e => exact .error e
  | left hloose => exact .left hloose
  | right hloose => exact .right hloose

theorem inStep_refl (z : Compile α) : InStep exact Eq z z := by
  intro k
  cases z k with
  | error e => exact .error e
  | ok result => exact .ok ⟨rfl, rfl⟩

/-- What a function makes of the results of a step. -/
theorem inStep_map_self (f : α → β) (z : Compile α) :
    InStep exact (fun a b => b = f a) z (f <$> z) := by
  have h : InStep exact (fun a b => b = f a) (id <$> z) (f <$> z) :=
    (inStep_refl z).map fun _ _ hsame => hsame ▸ rfl
  rwa [id_map] at h

/-- Steps for the items of a list, each from states that are related. -/
theorem inStep_foldlM {σ τ : Type} {T : σ → τ → Prop} {f : σ → ι → Compile σ}
    {g : τ → ι → Compile τ} {items : List ι}
    (step : ∀ item ∈ items, ∀ s t, T s t → InStep exact T (f s item) (g t item)) :
    ∀ {s : σ} {t : τ}, T s t → InStep exact T (items.foldlM f s) (items.foldlM g t) := by
  induction items with
  | nil => exact fun h => inStep_pure h
  | cons item rest ih =>
    intro s t h
    rw [List.foldlM_cons, List.foldlM_cons]
    exact (step item List.mem_cons_self s t h).bind fun _ _ hnext =>
      ih (fun other hmem => step other (List.mem_cons_of_mem _ hmem)) hnext

/-- Steps for the items of a list, each with a result of its own. -/
theorem inStep_mapM {f : ι → Compile α} {g : ι → Compile β} {items : List ι}
    (step : ∀ item ∈ items, InStep exact R (f item) (g item)) :
    InStep exact (List.Forall₂ R) (items.mapM f) (items.mapM g) := by
  induction items with
  | nil => exact inStep_pure .nil
  | cons item rest ih =>
    rw [List.mapM_cons, List.mapM_cons]
    exact (step item List.mem_cons_self).bind fun _ _ hfirst =>
      (ih fun other hmem => step other (List.mem_cons_of_mem _ hmem)).bind fun _ _ hrest =>
        inStep_pure (.cons hfirst hrest)

end Compile

end JsonSql
