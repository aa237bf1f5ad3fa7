import JsonSql.Proofs.Run

set_option autoImplicit false

/-!
# Compilations that succeed together

Two compilations correspond if each succeeds where the other one does, with related results and the
same number of aliases issued (`Compile.Corresponds`).  Why they fail may differ: a message shows
the path of a field as the request writes it.
-/

namespace JsonSql

/-- Related results, or two failures. -/
inductive Except.Corresponds {ε α β : Type} (R : α → β → Prop) : Except ε α → Except ε β → Prop
  | ok {a : α} {b : β} : R a b → Corresponds R (.ok a) (.ok b)
  | error (e e' : ε) : Corresponds R (.error e) (.error e')

namespace Except.Corresponds

variable {ε α β : Type} {R : α → β → Prop} {x : Except ε α} {y : Except ε β}

theorem mono {S : α → β → Prop} (h : Corresponds R x y) (hnext : ∀ a b, R a b → S a b) :
    Corresponds S x y := by
  cases h with
  | ok hab => exact .ok (hnext _ _ hab)
  | error e e' => exact .error e e'

theorem refl (x : Except ε α) : Corresponds Eq x x := by
  cases x with
  | error e => exact .error e e
  | ok a => exact .ok rfl

theorem bind {γ δ : Type} {S : γ → δ → Prop} {f : α → Except ε γ} {g : β → Except ε δ}
    (h : Corresponds R x y) (hnext : ∀ a b, R a b → Corresponds S (f a) (g b)) :
    Corresponds S (x >>= f) (y >>= g) := by
  cases h with
  | ok hab => exact hnext _ _ hab
  | error e e' => exact .error e e'

/-- Two computations with the same results give the same. -/
theorem eq_ok_iff {y : Except ε α} {a : α} (h : Corresponds Eq x y) : x = .ok a ↔ y = .ok a := by
  cases h with
  | ok hab => rw [hab]
  | error e e' =>
    refine iff_of_false (fun h => ?_) (fun h => ?_) <;> cases h

/-- A computation for each item of a list. -/
theorem mapM {ι : Type} {f g : ι → Except ε α} {items : List ι}
    (h : ∀ item, Corresponds Eq (f item) (g item)) :
    Corresponds Eq (items.mapM f) (items.mapM g) := by
  induction items with
  | nil => exact .ok rfl
  | cons item rest ih =>
    rw [List.mapM_cons, List.mapM_cons]
    refine (h item).bind fun first _ hfirst => ?_
    subst hfirst
    refine ih.bind fun results _ hresults => ?_
    subst hresults
    exact .ok rfl

end Except.Corresponds

namespace Compile

variable {α β γ δ : Type} {R : α → β → Prop} {S : γ → δ → Prop} {x : Compile α} {y : Compile β}

/-- From every count of aliases, the two give related results and the same count, or both fail. -/
def Corresponds (R : α → β → Prop) (x : Compile α) (y : Compile β) : Prop :=
  ∀ k, Except.Corresponds (fun found other => R found.1 other.1 ∧ found.2 = other.2) (x k) (y k)

theorem corresponds_pure {a : α} {b : β} (h : R a b) : Corresponds R (pure a) (pure b) :=
  fun _ => .ok ⟨h, rfl⟩

theorem corresponds_throw (e e' : QueryError) : Corresponds R (throw e) (throw e') :=
  fun _ => .error e e'

theorem corresponds_refl (z : Compile α) : Corresponds Eq z z :=
  fun k => (Except.Corresponds.refl (z k)).mono fun _ _ hsame => hsame ▸ ⟨rfl, rfl⟩

/-- A computation without aliases. -/
theorem corresponds_lift {u : Except QueryError α} {v : Except QueryError β}
    (h : Except.Corresponds R u v) : Corresponds R (liftM u) (liftM v) := by
  intro k
  cases h with
  | ok hab => exact .ok ⟨hab, rfl⟩
  | error e e' => exact .error e e'

namespace Corresponds

theorem bind {f : α → Compile γ} {g : β → Compile δ} (h : Corresponds R x y)
    (hnext : ∀ a b, R a b → Corresponds S (f a) (g b)) :
    Corresponds S (x >>= f) (y >>= g) := by
  intro k
  refine (h k).bind ?_
  rintro ⟨a, j⟩ ⟨b, j'⟩ ⟨hab, rfl⟩
  exact hnext a b hab j

theorem map {f : α → γ} {g : β → δ} (h : Corresponds R x y)
    (hnext : ∀ a b, R a b → S (f a) (g b)) : Corresponds S (f <$> x) (g <$> y) := by
  rw [← bind_pure_comp, ← bind_pure_comp]
  exact h.bind fun a b hab => corresponds_pure (hnext a b hab)

/-- What the first one gives may be looked at. -/
theorem gives (h : Corresponds R x y) :
    Corresponds (fun a b => R a b ∧ ∃ k k', x.Gives k a k') x y := by
  intro k
  have hfirst := h k
  cases hx : x k with
  | error e =>
    rw [hx] at hfirst
    generalize y k = other at hfirst
    cases hfirst with
    | error => exact .error _ _
  | ok found =>
    rw [hx] at hfirst
    generalize y k = other at hfirst
    cases hfirst with
    | ok hab => exact .ok ⟨⟨hab.1, k, found.2, hx⟩, hab.2⟩

/-- Two steps with the same results give the same. -/
theorem gives_iff {y : Compile α} {a : α} {k k' : Nat} (h : Corresponds Eq x y) :
    x.Gives k a k' ↔ y.Gives k a k' :=
  ((h k).mono fun _ _ hsame => Prod.ext hsame.1 hsame.2).eq_ok_iff

end Corresponds

variable {ι : Type}

/-- Steps for the items of a list, each from states that are related. -/
theorem corresponds_foldlM {σ τ : Type} {T : σ → τ → Prop} {f : σ → ι → Compile σ}
    {g : τ → ι → Compile τ} {items : List ι}
    (step : ∀ item ∈ items, ∀ s t, T s t → Corresponds T (f s item) (g t item)) :
    ∀ {s : σ} {t : τ}, T s t → Corresponds T (items.foldlM f s) (items.foldlM g t) := by
  induction items with
  | nil => exact fun h => corresponds_pure h
  | cons item rest ih =>
    intro s t h
    rw [List.foldlM_cons, List.foldlM_cons]
    exact (step item List.mem_cons_self s t h).bind fun _ _ hnext =>
      ih (fun other hmem => step other (List.mem_cons_of_mem _ hmem)) hnext

/-- Steps for the items of a list, each with a result of its own. -/
theorem corresponds_mapM {f g : ι → Compile α} {items : List ι}
    (step : ∀ item ∈ items, Corresponds Eq (f item) (g item)) :
    Corresponds Eq (items.mapM f) (items.mapM g) := by
  induction items with
  | nil => exact corresponds_pure rfl
  | cons item rest ih =>
    rw [List.mapM_cons, List.mapM_cons]
    refine (step item List.mem_cons_self).bind fun first _ hfirst => ?_
    refine (ih fun other hmem => step other (List.mem_cons_of_mem _ hmem)).bind
      fun results _ hresults => ?_
    exact hfirst ▸ hresults ▸ corresponds_pure rfl

end Compile

end JsonSql
