import JsonSql.Statement.Compile

set_option autoImplicit false

/-!
# Runs of a compilation

A step of a compilation gives a result and a new count of issued aliases, or fails.  `Gives` says
that a step succeeds with a result.  The lemmas here say what a step that is put together from
others gives, and what the questions to the schema give; proofs about the compilation cite these
and do not look at how steps are represented.
-/

namespace JsonSql

open JsonSql.Sql

/-- The step succeeds with the result `a`, and the count of issued aliases goes from `k` to `k'`. -/
def Compile.Gives {α : Type} (x : Compile α) (k : Nat) (a : α) (k' : Nat) : Prop :=
  x k = .ok (a, k')

namespace Compile

variable {α β : Type} {k k' : Nat}

@[simp] theorem gives_pure {a b : α} :
    Gives (pure a : Compile α) k b k' ↔ b = a ∧ k' = k := by
  constructor
  · intro h
    cases h
    exact ⟨rfl, rfl⟩
  · rintro ⟨rfl, rfl⟩
    rfl

/-- Two steps in a row: the second one starts where the first one stops. -/
@[simp] theorem gives_bind {x : Compile α} {f : α → Compile β} {b : β} :
    (x >>= f).Gives k b k' ↔ ∃ a k₁, x.Gives k a k₁ ∧ (f a).Gives k₁ b k' := by
  simp only [Gives, bind, StateT.bind, Except.bind]
  cases x k with
  | error e => simp
  | ok result =>
    constructor
    · intro h
      exact ⟨result.1, result.2, rfl, h⟩
    · rintro ⟨a, k₁, ha, hb⟩
      cases ha
      exact hb

@[simp] theorem gives_map {x : Compile α} {f : α → β} {b : β} :
    (f <$> x).Gives k b k' ↔ ∃ a, x.Gives k a k' ∧ b = f a := by
  rw [← bind_pure_comp, gives_bind]
  constructor
  · rintro ⟨a, k₁, ha, hb⟩
    obtain ⟨rfl, rfl⟩ := gives_pure.mp hb
    exact ⟨a, ha, rfl⟩
  · rintro ⟨a, ha, rfl⟩
    exact ⟨a, k', ha, gives_pure.mpr ⟨rfl, rfl⟩⟩

@[simp] theorem not_gives_throw {e : QueryError} {a : α} :
    ¬ Gives (throw e : Compile α) k a k' := by
  intro h
  cases h

/-- A computation without aliases as a step. -/
@[simp] theorem gives_lift {x : Except QueryError α} {a : α} :
    Gives (liftM x : Compile α) k a k' ↔ x = .ok a ∧ k' = k := by
  cases x with
  | error e =>
    constructor
    · intro h
      cases h
    · rintro ⟨h, -⟩
      cases h
  | ok b =>
    constructor
    · intro h
      cases h
      exact ⟨rfl, rfl⟩
    · rintro ⟨h, rfl⟩
      cases h
      rfl

/-- A step that succeeds gives some result. -/
theorem exists_gives {x : Compile α} (h : (x k).toOption.isSome = true) :
    ∃ a k', x.Gives k a k' := by
  cases hx : x k with
  | error e =>
    rw [hx] at h
    cases h
  | ok result => exact ⟨result.1, result.2, hx⟩

/-- A step that gives something with a property. -/
theorem exists_gives_some {x : Compile (Option α)} {f : α → β} {b : β}
    (h : ((x k).toOption.bind fun result => result.1.map f) = some b) :
    ∃ a k', x.Gives k (some a) k' ∧ f a = b := by
  cases hx : x k with
  | error e =>
    rw [hx] at h
    cases h
  | ok result =>
    rw [hx] at h
    obtain ⟨a, ha, hb⟩ := Option.map_eq_some_iff.mp h
    obtain ⟨found, k'⟩ := result
    obtain rfl : found = some a := ha
    exact ⟨a, k', hx, hb⟩

/-- What one step keeps, steps for each item of a list keep. -/
theorem foldlM_keeps {σ : Type} {f : σ → β → Compile σ} {P : σ → Nat → Prop}
    (step : ∀ {s b k s' k'}, P s k → (f s b).Gives k s' k' → P s' k') :
    ∀ {items : List β} {s s' : σ} {k k' : Nat},
      P s k → (items.foldlM f s).Gives k s' k' → P s' k' := by
  intro items
  induction items with
  | nil =>
    intro s s' k k' hs h
    obtain ⟨rfl, rfl⟩ := gives_pure.mp h
    exact hs
  | cons item rest ih =>
    intro s s' k k' hs h
    rw [List.foldlM_cons, gives_bind] at h
    obtain ⟨s₁, k₁, hfirst, hrest⟩ := h
    exact ih (step hs hfirst) hrest

/-- What every step gives, the steps for the items of a list give. -/
theorem mapM_all {f : β → Compile α} {P : α → Prop}
    (step : ∀ {b k a k'}, (f b).Gives k a k' → P a) :
    ∀ {items : List β} {results : List α} {k k' : Nat},
      (items.mapM f).Gives k results k' → ∀ a ∈ results, P a := by
  intro items
  induction items with
  | nil =>
    intro results k k' h
    rw [List.mapM_nil, gives_pure] at h
    obtain ⟨rfl, rfl⟩ := h
    simp
  | cons item rest ih =>
    intro results k k' h
    rw [List.mapM_cons] at h
    simp only [gives_bind, gives_pure] at h
    obtain ⟨a, k₁, hfirst, as, k₂, hrest, rfl, rfl⟩ := h
    intro b hb
    rcases List.mem_cons.mp hb with rfl | hb
    · exact step hfirst
    · exact ih hrest b hb

/-- What holds of no items and is kept by one more step holds of all items. -/
theorem foldlM_builds {σ : Type} {f : σ → β → Compile σ} {P : List β → σ → Nat → Prop}
    (step : ∀ {done s b k s' k'}, P done s k → (f s b).Gives k s' k' → P (done ++ [b]) s' k')
    {items : List β} {s s' : σ} (start : P [] s k) (h : (items.foldlM f s).Gives k s' k') :
    P items s' k' := by
  have hbuilds : ∀ {items done : List β} {s s' : σ} {k k' : Nat},
      P done s k → (items.foldlM f s).Gives k s' k' → P (done ++ items) s' k' := by
    intro items
    induction items with
    | nil =>
      intro done s s' k k' hs h
      obtain ⟨rfl, rfl⟩ := gives_pure.mp h
      rw [List.append_nil]
      exact hs
    | cons item rest ih =>
      intro done s s' k k' hs h
      rw [List.foldlM_cons, gives_bind] at h
      obtain ⟨s₁, k₁, hfirst, hrest⟩ := h
      rw [List.append_cons]
      exact ih (step hs hfirst) hrest
  exact hbuilds start h

/-- What holds of no items and is kept by one more step holds of all items and their results. -/
theorem mapM_builds {f : β → Compile α} {P : List β → List α → Nat → Prop}
    (step : ∀ {done results b k a k'}, P done results k → (f b).Gives k a k' →
      P (done ++ [b]) (results ++ [a]) k')
    {items : List β} {results : List α} (start : P [] [] k)
    (h : (items.mapM f).Gives k results k') : P items results k' := by
  have hbuilds : ∀ {items done : List β} {before results : List α} {k k' : Nat},
      P done before k → (items.mapM f).Gives k results k' →
      P (done ++ items) (before ++ results) k' := by
    intro items
    induction items with
    | nil =>
      intro done before results k k' hbefore h
      rw [List.mapM_nil, gives_pure] at h
      obtain ⟨rfl, rfl⟩ := h
      rw [List.append_nil, List.append_nil]
      exact hbefore
    | cons item rest ih =>
      intro done before results k k' hbefore h
      rw [List.mapM_cons] at h
      simp only [gives_bind, gives_pure] at h
      obtain ⟨a, k₁, hfirst, as, k₂, hrest, rfl, rfl⟩ := h
      rw [List.append_cons, List.append_cons before]
      exact ih (step hbefore hfirst) hrest
  exact hbuilds start h

/-- Each item of a list has a result. -/
theorem exists_mem_of_mapM {f : β → Compile α} {items : List β}
    {results : List α} {b : β} (h : (items.mapM f).Gives k results k') (hb : b ∈ items) :
    ∃ a ∈ results, ∃ k₁ k₂, (f b).Gives k₁ a k₂ := by
  refine mapM_builds (P := fun done results _ => b ∈ done →
    ∃ a ∈ results, ∃ k₁ k₂, (f b).Gives k₁ a k₂) ?_ (fun hnone => (by cases hnone)) h hb
  intro done results next j a j' hdone hnext hmem
  rcases List.mem_append.mp hmem with hmem | hmem
  · obtain ⟨found, hfound, hgives⟩ := hdone hmem
    exact ⟨found, List.mem_append_left _ hfound, hgives⟩
  · obtain rfl := List.mem_singleton.mp hmem
    exact ⟨a, List.mem_append_right _ (List.mem_singleton_self a), j, j', hnext⟩

end Compile

/-! ## Computations that issue no alias -/

/-- Two computations in a row succeed if both do. -/
theorem Except.bind_eq_ok_iff {ε α β : Type} {x : Except ε α} {f : α → Except ε β} {b : β} :
    (x >>= f) = .ok b ↔ ∃ a, x = .ok a ∧ f a = .ok b := by
  cases x with
  | error e => simp [bind, Except.bind]
  | ok a => simp [bind, Except.bind]

/-- What a function makes of a result. -/
theorem Except.map_eq_ok_iff {ε α β : Type} {x : Except ε α} {f : α → β} {b : β} :
    (f <$> x) = .ok b ↔ ∃ a, x = .ok a ∧ f a = b := by
  cases x with
  | error e => simp [Functor.map, Except.map]
  | ok a => simp [Functor.map, Except.map]

/-- Two computations in a row fail if the first does, or the second one. -/
theorem Except.bind_eq_error_iff {ε α β : Type} {x : Except ε α} {f : α → Except ε β} {e : ε} :
    (x >>= f) = .error e ↔ x = .error e ∨ ∃ a, x = .ok a ∧ f a = .error e := by
  cases x with
  | error e => simp [bind, Except.bind]
  | ok a => simp [bind, Except.bind]

theorem Except.map_eq_error_iff {ε α β : Type} {x : Except ε α} {f : α → β} {e : ε} :
    (f <$> x) = .error e ↔ x = .error e := by
  cases x with
  | error e => simp [Functor.map, Except.map]
  | ok a => simp [Functor.map, Except.map]

/-- A computation whose result has a property succeeds with a result of that property. -/
theorem Except.exists_eq_ok {ε α β : Type} {x : Except ε α} {f : α → β} {b : β}
    (h : x.toOption.map f = some b) : ∃ a, x = .ok a ∧ f a = b := by
  cases x with
  | error e => cases h
  | ok a => exact ⟨a, rfl, Option.some.inj h⟩

/-- The results of a computation for each item of a list come from the items one by one. -/
theorem Except.mem_of_mapM_eq_ok {ε α β : Type} {f : β → Except ε α} :
    ∀ {items : List β} {results : List α}, items.mapM f = .ok results →
      ∀ a ∈ results, ∃ b ∈ items, f b = .ok a := by
  intro items
  induction items with
  | nil =>
    intro results h
    rw [List.mapM_nil] at h
    cases h
    simp
  | cons item rest ih =>
    intro results h
    rw [List.mapM_cons, Except.bind_eq_ok_iff] at h
    obtain ⟨a, hfirst, h⟩ := h
    rw [Except.bind_eq_ok_iff] at h
    obtain ⟨as, hrest, h⟩ := h
    cases h
    intro b hb
    rcases List.mem_cons.mp hb with rfl | hb
    · exact ⟨item, List.mem_cons_self, hfirst⟩
    · obtain ⟨i, hi, hib⟩ := ih hrest b hb
      exact ⟨i, List.mem_cons_of_mem _ hi, hib⟩

/-- A computation for each item of a list fails as it does for one of them. -/
theorem Except.exists_of_mapM_eq_error {ε α β : Type} {f : β → Except ε α} {e : ε} :
    ∀ {items : List β}, items.mapM f = .error e → ∃ b ∈ items, f b = .error e := by
  intro items h
  induction items with
  | nil =>
    rw [List.mapM_nil] at h
    cases h
  | cons item rest ih =>
    rw [List.mapM_cons, Except.bind_eq_error_iff] at h
    obtain hfirst | ⟨a, -, h⟩ := h
    · exact ⟨item, List.mem_cons_self, hfirst⟩
    · obtain hrest | ⟨as, -, h⟩ := Except.bind_eq_error_iff.mp h
      · obtain ⟨b, hb, hfails⟩ := ih hrest
        exact ⟨b, List.mem_cons_of_mem _ hb, hfails⟩
      · cases h

/-- A computation for each item of a list succeeds for each. -/
theorem Except.exists_of_mapM_eq_ok {ε α β : Type} {f : β → Except ε α} :
    ∀ {items : List β} {results : List α}, items.mapM f = .ok results →
      ∀ b ∈ items, ∃ a, f b = .ok a := by
  intro items
  induction items with
  | nil =>
    intro results _ b hb
    cases hb
  | cons item rest ih =>
    intro results h
    rw [List.mapM_cons, Except.bind_eq_ok_iff] at h
    obtain ⟨a, hfirst, h⟩ := h
    rw [Except.bind_eq_ok_iff] at h
    obtain ⟨as, hrest, -⟩ := h
    intro b hb
    rcases List.mem_cons.mp hb with rfl | hb
    · exact ⟨a, hfirst⟩
    · exact ih hrest b hb

/-! ## Questions to the schema -/

namespace Context

variable {c : Context} {k k' : Nat}

theorem freshAlias_gives {name : String} :
    c.freshAlias.Gives k name k' ↔ name = c.names k ∧ k' = k + 1 := by
  constructor
  · intro h
    cases h
    exact ⟨rfl, rfl⟩
  · rintro ⟨rfl, rfl⟩
    rfl

theorem ask_gives {α : Type} {answer : Except SchemaError α} {a : α} :
    (ask answer).Gives k a k' ↔ answer = .ok a ∧ k' = k := by
  cases answer with
  | error e => simp [ask]
  | ok b =>
    simp only [ask, Compile.gives_pure, Except.ok.injEq]
    exact and_congr_left fun _ => eq_comm

theorem collection_gives {name : String} {info : CollectionInfo} :
    (c.collection name).Gives k info k' ↔
      c.provider.collection name = .ok (some info) ∧ k' = k := by
  simp only [collection, Compile.gives_bind, ask_gives]
  constructor
  · rintro ⟨answer, k₁, ⟨hanswer, rfl⟩, h⟩
    cases answer with
    | none => exact absurd h Compile.not_gives_throw
    | some found =>
      obtain ⟨rfl, rfl⟩ := Compile.gives_pure.mp h
      exact ⟨hanswer, rfl⟩
  · rintro ⟨hanswer, rfl⟩
    exact ⟨some info, k', ⟨hanswer, rfl⟩, Compile.gives_pure.mpr ⟨rfl, rfl⟩⟩

theorem primary_gives {name primary : String} :
    (c.primary name).Gives k primary k' ↔
      ∃ info, c.provider.collection name = .ok (some info) ∧ primary = info.primary ∧
        k' = k := by
  simp only [Context.primary, Compile.gives_map, collection_gives]
  constructor
  · rintro ⟨info, ⟨hinfo, rfl⟩, rfl⟩
    exact ⟨info, hinfo, rfl, rfl⟩
  · rintro ⟨info, hinfo, rfl, rfl⟩
    exact ⟨info, ⟨hinfo, rfl⟩, rfl⟩

theorem field_gives {collection name : String} {f : Field} :
    (c.field collection name).Gives k f k' ↔
      c.provider.field collection name = .ok (some f) ∧ k' = k := by
  simp only [Context.field, Compile.gives_bind, ask_gives]
  constructor
  · rintro ⟨answer, k₁, ⟨hanswer, rfl⟩, h⟩
    cases answer with
    | none => exact absurd h Compile.not_gives_throw
    | some found =>
      obtain ⟨rfl, rfl⟩ := Compile.gives_pure.mp h
      exact ⟨hanswer, rfl⟩
  · rintro ⟨hanswer, rfl⟩
    exact ⟨some f, k', ⟨hanswer, rfl⟩, Compile.gives_pure.mpr ⟨rfl, rfl⟩⟩

end Context

/-! ## The discriminator -/

theorem discriminator_gives {r : Relation} {collection field column : String} {k k' : Nat} :
    (discriminator r collection field).Gives k column k' ↔
      r.info.discriminator = some column ∧ k' = k := by
  unfold discriminator
  cases r.info.discriminator with
  | none => simp
  | some found =>
    simp only [Compile.gives_pure, Option.some.injEq]
    exact and_congr_left fun _ => eq_comm

end JsonSql
