import JsonSql.Proofs.Asked
import JsonSql.Proofs.Segments

set_option autoImplicit false

/-!
# Failures on the way

What a compilation fails with, as far as links or operators are to blame.  One rule for each way to
build a step says which failures it avoids.  If neither the links that a request follows nor the
collections that they lead to cause some failures, only its filter can end in one of them, by an
operator (`Context.IsShielded.apply`); if links alone may cause them, compiling the request does not
(`Context.IsGuarded.apply`).  The invariant of the joins on record is that each leads to a
collection of those, and where its path leads.
-/

namespace JsonSql

open JsonSql.Sql

/-- A failure that a link causes, or the collection that it leads to. -/
def QueryError.isOfLink : QueryError → Bool
  | .unknownCollection _ => true
  | .query (.noRelatedCollection _ _) | .query (.noDiscriminator _ _) |
    .query (.notRelational _ _) => true
  | .filter (.notQuantifiable _) => true
  | _ => false

/-- A failure that an operator causes. -/
def QueryError.isOfOperator : QueryError → Bool
  | .operatorNotAllowed _ _ _ | .concealed _ _ | .unsupported (.operator _) _ => true
  | _ => false

/-- Whatever the computation fails with, it is none of some failures. -/
def AvoidsResult {α : Type} (bad : QueryError → Bool) (x : Except QueryError α) : Prop :=
  ∀ e, x = .error e → bad e = false

/-- Whatever the step fails with, it is none of some failures. -/
def Compile.Avoids {α : Type} (bad : QueryError → Bool) (x : Compile α) : Prop :=
  ∀ k, AvoidsResult bad (x k)

/-! ## Steps -/

section Steps

variable {α β : Type} {bad : QueryError → Bool}

namespace AvoidsResult

theorem ok (a : α) : AvoidsResult bad (.ok a) := by
  intro e h
  cases h

theorem error {e : QueryError} (h : bad e = false) :
    AvoidsResult bad (.error e : Except QueryError α) := by
  rintro _ ⟨⟩
  exact h

theorem bind {x : Except QueryError α} {f : α → Except QueryError β} (hx : AvoidsResult bad x)
    (hf : ∀ a, x = .ok a → AvoidsResult bad (f a)) : AvoidsResult bad (x >>= f) := by
  cases x with
  | error e => exact error (hx e rfl)
  | ok a => exact hf a rfl

theorem mapM {f : β → Except QueryError α} {items : List β}
    (h : ∀ item ∈ items, AvoidsResult bad (f item)) : AvoidsResult bad (items.mapM f) := by
  induction items with
  | nil => exact ok []
  | cons item rest ih =>
    rw [List.mapM_cons]
    refine bind (h item List.mem_cons_self) fun a _ => ?_
    exact bind (ih fun i hi => h i (List.mem_cons_of_mem _ hi)) fun as _ => ok _

end AvoidsResult

namespace Compile.Avoids

theorem pure (a : α) : (Pure.pure a : Compile α).Avoids bad := fun k => .ok (a, k)

theorem throw {e : QueryError} (h : bad e = false) :
    (MonadExcept.throw e : Compile α).Avoids bad := fun _ => .error h

theorem lift {x : Except QueryError α} (h : AvoidsResult bad x) :
    (liftM x : Compile α).Avoids bad := by
  intro k
  cases x with
  | error e => exact .error (h e rfl)
  | ok a => exact .ok (a, k)

/-- Two steps in a row, of which the second one starts from what the first one gives. -/
theorem bind {x : Compile α} {f : α → Compile β} (hx : x.Avoids bad)
    (hf : ∀ {a k k'}, x.Gives k a k' → (f a).Avoids bad) : (x >>= f).Avoids bad := fun k =>
  AvoidsResult.bind (hx k) fun result hresult => hf (a := result.1) hresult result.2

theorem map {x : Compile α} {f : α → β} (hx : x.Avoids bad) : (f <$> x).Avoids bad := by
  rw [← bind_pure_comp]
  exact bind hx fun _ => pure _

theorem mapM {f : β → Compile α} {items : List β} (h : ∀ item ∈ items, (f item).Avoids bad) :
    (items.mapM f).Avoids bad := by
  induction items with
  | nil => exact pure []
  | cons item rest ih =>
    rw [List.mapM_cons]
    refine bind (h item List.mem_cons_self) fun _ => ?_
    exact bind (ih fun i hi => h i (List.mem_cons_of_mem _ hi)) fun _ => pure _

end Compile.Avoids

/-- Whatever the step fails with, it is none of some failures, and what it gives has a property. -/
structure Compile.Ensures (bad : QueryError → Bool) (x : Compile α) (P : α → Prop) : Prop where
  avoids : x.Avoids bad
  gives : ∀ {a : α} {k k' : Nat}, x.Gives k a k' → P a

namespace Compile

variable {P : α → Prop} {Q : β → Prop}

theorem Ensures.pure {a : α} (h : P a) : (Pure.pure a : Compile α).Ensures bad P :=
  ⟨.pure a, fun hgives => (gives_pure.mp hgives).1 ▸ h⟩

theorem Avoids.bind_ensures {x : Compile α} {f : α → Compile β} (hx : x.Avoids bad)
    (hf : ∀ {a k k'}, x.Gives k a k' → (f a).Ensures bad Q) : (x >>= f).Ensures bad Q := by
  refine ⟨.bind hx fun hgives => (hf hgives).avoids, fun hgives => ?_⟩
  obtain ⟨a, k₁, ha, hb⟩ := gives_bind.mp hgives
  exact (hf ha).gives hb

theorem Ensures.bind {x : Compile α} {f : α → Compile β} (hx : x.Ensures bad P)
    (hf : ∀ a, P a → (f a).Ensures bad Q) : (x >>= f).Ensures bad Q :=
  hx.avoids.bind_ensures fun hgives => hf _ (hx.gives hgives)

/-- What one step ensures if it held before, steps for each item of a list ensure. -/
theorem Ensures.foldlM {f : α → β → Compile α} {items : List β}
    (step : ∀ a, P a → ∀ item ∈ items, (f a item).Ensures bad P) :
    ∀ {a : α}, P a → (items.foldlM f a).Ensures bad P := by
  induction items with
  | nil => exact fun ha => .pure ha
  | cons item rest ih =>
    intro a ha
    rw [List.foldlM_cons]
    refine .bind (step a ha item List.mem_cons_self) fun b hb => ?_
    exact ih (fun a ha i hi => step a ha i (List.mem_cons_of_mem _ hi)) hb

end Compile

end Steps

/-! ## Conditions of leaves -/

namespace Context

variable {c : Context} {bad : QueryError → Bool} {collection : String} {hops : Hops}

mutual
/-- A condition avoids failures that those of its leaves avoid. -/
theorem avoids_condition? (parents : List String) (f : Filter)
    (h : ∀ leaf ∈ c.leaves collection parents f,
      (c.leafCondition? hops collection leaf).Avoids bad) :
    (c.condition? hops collection parents f).Avoids bad := by
  obtain ⟨clauses⟩ := f
  rw [leaves] at h
  rw [condition?]
  exact .map (avoids_clauseConditions parents clauses h)

theorem avoids_clauseConditions (parents : List String) (clauses : List Clause)
    (h : ∀ leaf ∈ c.clausesLeaves collection parents clauses,
      (c.leafCondition? hops collection leaf).Avoids bad) :
    (c.clauseConditions hops collection parents clauses).Avoids bad := by
  cases clauses with
  | nil =>
    rw [clauseConditions]
    exact .pure []
  | cons clause rest =>
    rw [clausesLeaves, List.forall_mem_append] at h
    rw [clauseConditions]
    refine .bind (avoids_clauseCondition? parents clause h.1) fun _ => ?_
    exact .bind (avoids_clauseConditions parents rest h.2) fun _ => .pure _

theorem avoids_clauseCondition? (parents : List String) (clause : Clause)
    (h : ∀ leaf ∈ c.clauseLeaves collection parents clause,
      (c.leafCondition? hops collection leaf).Avoids bad) :
    (c.clauseCondition? hops collection parents clause).Avoids bad := by
  cases clause with
  | all filters =>
    rw [clauseLeaves] at h
    rw [clauseCondition?]
    exact .map (avoids_groupConditions parents filters h)
  | any filters =>
    rw [clauseLeaves] at h
    rw [clauseCondition?]
    split
    · exact .pure none
    · next hrestricts =>
      rw [if_neg hrestricts] at h
      exact .map (avoids_groupConditions parents filters h)
  | field key condition =>
    rw [clauseLeaves] at h
    rw [clauseCondition?]
    exact avoids_fieldCondition? parents key condition h

theorem avoids_groupConditions (parents : List String) (filters : List Filter)
    (h : ∀ leaf ∈ c.filtersLeaves collection parents filters,
      (c.leafCondition? hops collection leaf).Avoids bad) :
    (c.groupConditions hops collection parents filters).Avoids bad := by
  cases filters with
  | nil =>
    rw [groupConditions]
    exact .pure []
  | cons f rest =>
    rw [filtersLeaves, List.forall_mem_append] at h
    rw [groupConditions]
    refine .bind (avoids_condition? parents f h.1) fun _ => ?_
    exact .bind (avoids_groupConditions parents rest h.2) fun _ => .pure _

theorem avoids_fieldCondition? (parents : List String) (key : String)
    (condition : FieldCondition)
    (h : ∀ leaf ∈ c.conditionLeaves collection parents key condition,
      (c.leafCondition? hops collection leaf).Avoids bad) :
    (c.fieldCondition? hops collection parents key condition).Avoids bad := by
  cases condition with
  | compare comparisons =>
    rw [conditionLeaves, List.forall_mem_singleton] at h
    exact h
  | nested f =>
    rw [conditionLeaves] at h
    rw [fieldCondition?]
    split
    · next hstart =>
      rw [if_pos hstart, List.forall_mem_singleton, leafCondition?, fieldCondition?,
        if_pos hstart] at h
      exact h
    · next hstart =>
      rw [if_neg hstart] at h
      exact avoids_condition? _ f h
  | quantified quantifier f =>
    rw [conditionLeaves, List.forall_mem_singleton] at h
    exact h
end

end Context

/-! ## Comparisons -/

namespace Context

variable {c : Context} {bad : QueryError → Bool}

theorem avoids_predicate? (h : ∀ op d, bad (.unsupported (.operator op) d) = false)
    (op : Operator) (d : Dialect) (column : Expr) (values : List Literal) (kept : Bool) :
    AvoidsResult bad (op.predicate? d column values kept) := by
  unfold Operator.predicate?
  split
  · exact .ok _
  · exact .ok _
  · exact .ok _
  · split <;> exact .ok _
  · split
    · split
      · exact .ok _
      · exact .error (h _ _)
    · exact .ok _
  · exact .ok _

/-- A comparison fails where its operator is checked, or where the dialect lacks it. -/
theorem avoids_compare? {column : Column} {comparison : Comparison}
    (h : ∀ op d, bad (.unsupported (.operator op) d) = false)
    (hcheck : AvoidsResult bad (checkOperator column comparison.operator)) :
    AvoidsResult bad (c.compare? column comparison) := by
  refine .bind hcheck fun _ _ => ?_
  split
  · exact .ok none
  · exact avoids_predicate? h _ _ _ _ _

end Context

/-! ## Links that are followed -/

/-- Some failures, each of which a link or an operator may cause, are caused neither by a collection
of some known ones nor by a link from such a collection along a segment of some known ones, which
leads to such a collection again. -/
structure Context.IsShielded (c : Context) (bad : QueryError → Bool) (reached : String → Prop)
    (followed : String → Prop) : Prop where
  other : ∀ e, e.isOfLink = false → e.isOfOperator = false → bad e = false
  trim : ∀ key, followed (Text.trim key) → followed key
  collection : ∀ name, reached name → (c.collection name).Avoids bad
  joined : ∀ (place : Place) (segment table : String), reached place.collection →
    followed segment → c.link place.collection segment ≠ .none →
    (c.joinTarget place segment table (c.link place.collection segment)).Ensures bad
      fun joined => reached joined.1
  related : ∀ owner segment, reached owner → followed segment →
    (c.link owner segment).isToMany = true →
    (Context.relatedKeys owner (c.link owner segment)).Ensures bad
      fun keys => reached keys.1.collection

/-- Operators do not cause the failures either. -/
structure Context.IsGuarded (c : Context) (bad : QueryError → Bool) (reached : String → Prop)
    (followed : String → Prop) : Prop extends c.IsShielded bad reached followed where
  ofLink : ∀ e, e.isOfLink = false → bad e = false
  other := fun e h _ => ofLink e h

/-- No comparison that a filter on a collection asks, with a column of the type that its path has,
fails with one of some failures. -/
def Context.AvoidsComparing (c : Context) (bad : QueryError → Bool) (collection : String)
    (f : Filter) : Prop :=
  ∀ owner path comparison, .compares owner path comparison ∈ c.asks collection f →
    ∀ column : Column, c.typeAt? owner path = some column.type → column.path = Hops.key path →
      AvoidsResult bad (c.compare? column comparison)

/-- Every join on record leads to a collection of some known ones. -/
def Hops.AllReach (reached : String → Prop) (hops : Hops) : Prop :=
  ∀ path hop, hops.get? path = some hop → reached hop.collection

section Hops

variable {reached : String → Prop} {hops : Hops}

theorem Hops.AllReach.empty : AllReach reached {} := fun _ _ hfound => (by cases hfound)

theorem Hops.AllReach.insert {path : List String} {hop : Hop} (h : hops.AllReach reached)
    (hhop : reached hop.collection) : (hops.insert path hop).AllReach reached := by
  intro other found hfound
  rcases get?_insert_eq_some hfound with ⟨-, rfl⟩ | ⟨-, hold⟩
  · exact hhop
  · exact h other found hold

end Hops

namespace Context

variable {c : Context} {bad : QueryError → Bool} {reached followed : String → Prop}
  {collection : String} {hops : Hops} {scope : Scope} {r : Request}

namespace IsShielded

variable (h : c.IsShielded bad reached followed)
include h

/-! ### Questions to the schema -/

theorem ask {α : Type} (answer : Except SchemaError α) : (Context.ask answer).Avoids bad := by
  cases answer with
  | error e => exact .throw (h.other _ rfl rfl)
  | ok a => exact .pure a

theorem primary {name : String} (hname : reached name) : (c.primary name).Avoids bad :=
  .map (h.collection name hname)

theorem field (name : String) : (c.field collection name).Avoids bad := by
  unfold Context.field
  refine .bind (h.ask _) fun {answer _ _} _ => ?_
  cases answer with
  | none => exact .throw (h.other _ rfl rfl)
  | some f => exact .pure f

/-! ### Joins -/

/-- Joining along a path keeps the joins on record within reach. -/
theorem joinFrom {inner : Bool} :
    ∀ {segments before : List String} {place : Place} {scope : Scope},
      (∀ segment ∈ segments, followed segment) → reached place.collection →
      scope.hops.AllReach reached →
      (c.joinFrom inner place before scope segments).Ensures bad
        fun joined => joined.1.hops.AllReach reached := by
  intro segments
  induction segments with
  | nil => exact fun _ _ hhops => .pure hhops
  | cons segment rest ih =>
    intro before place scope hkeys hplace hhops
    cases rest with
    | nil => exact .pure hhops
    | cons next rest =>
      have hkey := hkeys segment List.mem_cons_self
      have hrest : ∀ segment ∈ next :: rest, followed segment :=
        fun s hs => hkeys s (List.mem_cons_of_mem _ hs)
      rw [Context.joinFrom]
      dsimp only
      split
      · exact .pure hhops
      · next hop hfound _ =>
        split
        · exact ih hrest (hhops _ _ hfound) hhops
        · exact .pure hhops
      · next hfresh hlink =>
        have hjoined (table : String) := h.joined place segment table hplace hkey hlink
        split
        · refine Compile.Avoids.bind_ensures ?_ fun {joined k k'} hjoin => ?_
          · refine .bind (fun k => .ok _) fun {table _ _} _ => ?_
            exact .bind (hjoined table).avoids fun _ => .pure _
          · obtain ⟨scope₁, hop⟩ := joined
            obtain ⟨target, condition, hgives, rfl, rfl⟩ := Context.join_gives hjoin
            have htarget : reached target := (hjoined _).gives hgives
            dsimp only
            split
            · exact .bind (ih hrest htarget (hhops.insert htarget)) fun _ hnext => .pure hnext
            · exact .pure (hhops.insert htarget)
        · exact .pure hhops

theorem joinPath {inner : Bool} {path : List String} {scope : Scope}
    (hkeys : ∀ segment ∈ path, followed segment) (hroot : reached collection)
    (hhops : scope.hops.AllReach reached) :
    (c.joinPath inner collection scope path).Ensures bad
      fun joined => joined.1.hops.AllReach reached :=
  h.joinFrom hkeys hroot hhops

theorem joinPaths {inner : Bool} {paths : List (List String)}
    (hkeys : ∀ path ∈ paths, ∀ segment ∈ path, followed segment) (hroot : reached collection) :
    ∀ {scope : Scope}, scope.hops.AllReach reached →
      (c.joinPaths inner collection scope paths).Ensures bad
        fun joined => joined.1.hops.AllReach reached := by
  induction paths with
  | nil => exact fun hhops => .pure hhops
  | cons path rest ih =>
    intro scope hhops
    rw [Context.joinPaths]
    refine .bind (h.joinPath (hkeys path List.mem_cons_self) hroot hhops) fun joined hnext => ?_
    exact .bind (ih (fun p hp => hkeys p (List.mem_cons_of_mem _ hp)) hnext) fun _ hlast =>
      .pure hlast

/-- A filter that is added keeps the joins on record within reach, if its condition avoids the
failures on the joins that are made for it. -/
theorem addFilter {inner : Bool} {f : Filter} {scope : Scope}
    {condition : Hops → Compile (Option Expr)} (hkeys : ∀ segment ∈ f.segments, followed segment)
    (hroot : reached collection) (hhops : scope.hops.AllReach reached)
    (hcondition : ∀ {joined : Scope} {several : Bool} {k k' : Nat},
      (c.joinFilter inner collection [] scope f).Gives k (joined, several) k' →
      joined.hops.AllReach reached → (condition joined.hops).Avoids bad) :
    (c.addFilter inner collection scope f condition).Ensures bad
      fun restricted => restricted.1.hops.AllReach reached := by
  have hpaths : ∀ path ∈ c.filterPaths collection [] f, ∀ segment ∈ path, followed segment :=
    fun path hpath segment hsegment => hkeys segment
      (Context.segments_of_mem_filterPaths (List.Subset.refl f.segments) path hpath hsegment)
  have hjoins : (c.joinFilter inner collection [] scope f).Ensures bad
      fun joined => joined.1.hops.AllReach reached := by
    rw [Context.joinFilter_eq]
    exact h.joinPaths hpaths hroot hhops
  refine hjoins.avoids.bind_ensures fun {joined k k'} hgives => ?_
  have hjoined := hjoins.gives hgives
  refine (hcondition hgives hjoined).bind_ensures fun {e? k k'} _ => ?_
  cases e? <;> exact .pure hjoined

/-! ### Columns -/

theorem applyFunction {place : Place} {function path field : String} {type : FieldType}
    (hplace : reached place.collection) :
    (c.applyFunction place function path field type).Avoids bad := by
  unfold Context.applyFunction
  dsimp only
  split
  · exact .throw (h.other _ rfl rfl)
  · split
    · exact .pure _
    · exact .throw (h.other _ rfl rfl)
  · split
    · refine .lift ?_
      unfold Context.jsonLength
      split
      · exact .ok _
      · exact .error (h.other _ rfl rfl)
    · refine .bind ?_ fun {found k k'} _ => ?_
      · refine .bind (h.primary hplace) fun _ => .bind (fun k => .ok _) fun _ => ?_
        dsimp only
        split
        · exact .pure _
        · split <;> exact .pure _
        · exact .pure _
      · cases found with
        | none => exact .throw (h.other _ rfl rfl)
        | some e => exact .pure e

theorem column {path : List String} (hroot : reached collection)
    (hhops : hops.AllReach reached) : (c.column hops collection path).Avoids bad := by
  unfold Context.column
  dsimp only
  split
  · exact .throw (h.other _ rfl rfl)
  · next last hlast =>
    refine .bind (.lift ?_) fun {place k k'} hplace => ?_
    · unfold Context.placeOf
      split
      · exact .ok _
      · split
        · exact .ok _
        · exact .error (h.other _ rfl rfl)
    · have hreached : reached place.collection := by
        rcases Context.placeOf_eq_ok (Compile.gives_lift.mp hplace).1 with
          ⟨-, rfl⟩ | ⟨-, hop, hfound, rfl⟩
        · exact hroot
        · exact hhops _ _ hfound
      refine .bind (h.field _) fun {field k k'} _ => ?_
      split
      · split
        · exact .throw (h.other _ rfl rfl)
        · exact .pure _
      · exact .bind (h.applyFunction hreached) fun _ => .pure _

/-! ### Conditions -/

/-- A filter on related rows avoids the failures, if its condition does on the joins that are made
for it. -/
theorem existential {owner table segment : String} {quantifier : Quantifier} {f : Filter}
    {condition : String → Hops → Compile (Option Expr)} (howner : reached owner)
    (hkey : followed segment) (hmany : (c.link owner segment).isToMany = true)
    (hkeys : ∀ segment ∈ f.segments, followed segment)
    (hcondition : ∀ {r : Relation} {start joined : Scope} {several : Bool} {k k' : Nat},
      (c.link owner segment).relation? = some r → reached r.collection → start.hops = {} →
      (c.joinFilter true r.collection [] start f).Gives k (joined, several) k' →
      joined.hops.AllReach reached → (condition r.collection joined.hops).Avoids bad) :
    (c.existential owner table (c.link owner segment) quantifier f condition).Avoids bad := by
  have hrelated := h.related owner segment howner hkey hmany
  unfold Context.existential Context.amongKeys
  refine .bind hrelated.avoids fun {keys k k'} hgives => ?_
  obtain ⟨r, q, polymorphic⟩ := keys
  have hreached : reached r.collection := hrelated.gives hgives
  obtain ⟨known, hreferring, -⟩ := isReferring_of_relatedKeys hgives
  refine .bind (h.collection _ hreached) fun _ => .bind ?_ fun _ => ?_
  · exact (h.addFilter hkeys hreached .empty fun hjoin hhops =>
      hcondition hreferring.relation?_eq hreached rfl hjoin hhops).avoids
  · exact .bind (h.primary howner) fun _ => .pure _

/-- The condition of a filter avoids the failures, if its comparisons do.  The induction is on the
size of the filter. -/
theorem condition? (f : Filter) :
    ∀ {collection : String} {hops : Hops}, f.IsUnfolded →
      (∀ segment ∈ f.segments, followed segment) → c.AvoidsComparing bad collection f →
      reached collection → hops.AllReach reached → hops.Leads c collection →
      (c.condition? hops collection [] f).Avoids bad := by
  induction hsize : sizeOf f using Nat.strongRecOn generalizing f with
  | ind size ih =>
  intro collection hops hf hkeys hcompare hroot hhops hleads
  refine avoids_condition? [] f fun leaf hleaf => ?_
  have hasked : ∀ ask ∈ c.leafAsks collection leaf, ask ∈ c.asks collection f := by
    intro ask hask
    rw [asks_eq]
    exact List.mem_flatMap.mpr ⟨leaf, hleaf, hask⟩
  have hunfolded := isUnfolded_of_mem_leaves f isPath_nil hf leaf hleaf
  have hin := segments_of_mem_leaves f (List.nil_subset _) (List.Subset.refl f.segments) leaf hleaf
  cases leaf with
  | compared parents key comparisons =>
    rw [leafCondition?, fieldCondition?]
    split
    · exact .bind (.throw (h.other _ rfl rfl)) fun hnone => absurd hnone Compile.not_gives_throw
    · refine .bind (h.column hroot hhops) fun {column k k'} hcolumn => .lift ?_
      obtain ⟨htype, hpath⟩ := typeAt?_of_column hleads hunfolded.1 hcolumn
      refine .bind (.mapM fun comparison hmem => ?_) fun _ _ => .ok _
      exact hcompare _ _ comparison (hasked _ (List.mem_map_of_mem hmem)) column htype hpath
  | related parents key quantifier g =>
    obtain ⟨hpath, hg⟩ := hin
    have htrim : followed (Text.trim key) :=
      hkeys _ (hpath (List.mem_append_right parents (List.mem_singleton_self _)))
    have hsegments : ∀ segment ∈ g.segments, followed segment :=
      fun segment hsegment => hkeys segment (hg hsegment)
    -- the filter on related rows is smaller
    have hinside {owner table : String} {link : Link} {r : Relation} {start joined : Scope}
        {several : Bool} {k k' : Nat}
        (haskedOf : c.IsAsked hops collection parents key owner table link)
        (hr : link.relation? = some r) (hreached : reached r.collection) (hstart : start.hops = {})
        (hjoin : (c.joinFilter true r.collection [] start g).Gives k (joined, several) k')
        (hhops : joined.hops.AllReach reached) :
        (c.condition? joined.hops r.collection [] g).Avoids bad := by
      have hrows := relatedCollection_eq (hleads.relatedLink? hunfolded.1 haskedOf) hr
      refine ih (sizeOf g) (hsize ▸ sizeOf_lt_of_mem_leaves f hleaf) g rfl hunfolded.2.2 hsegments
        (fun owner path comparison hmem => ?_) hreached hhops
        (Hops.Leads.joinFilter hunfolded.2.2 (hstart ▸ Hops.Leads.empty) hjoin)
      refine hcompare owner path comparison (hasked _ ?_)
      rw [leafAsks, hrows]
      exact List.mem_append_right _ hmem
    rw [leafCondition?, fieldCondition?]
    split
    · next hstart =>
      have hmany := (Bool.and_eq_true_iff.mp hstart).2
      have haskedOf : c.IsAsked hops collection parents key collection collection
          (c.link collection key) := ⟨hmany, .inl ⟨hstart, rfl, rfl, rfl⟩⟩
      exact .map (h.existential hroot (h.trim key htrim) hmany hsegments (hinside haskedOf))
    · next hstart =>
      refine .bind (.lift ?_) fun {found k k'} hgives => ?_
      · unfold quantifiedLink
        dsimp only
        split
        · exact .error (h.other _ rfl rfl)
        · split
          · exact .ok _
          · exact .error (h.other _ rfl rfl)
      · obtain ⟨hop, along⟩ := found
        obtain ⟨hfound, halong, hmany⟩ := quantifiedLink_eq_ok (Compile.gives_lift.mp hgives).1
        rw [halong] at hmany ⊢
        exact .map (h.existential (hhops _ _ hfound) htrim hmany hsegments
          (hinside ⟨hmany, .inr ⟨by simpa using hstart, hop, hfound, rfl, rfl, rfl⟩⟩))

theorem restrict {inner : Bool} {f : Filter}
    (hkeys : ∀ segment ∈ f.unfolded.segments, followed segment)
    (hcompare : c.AvoidsComparing bad collection f.unfolded) (hroot : reached collection)
    (hhops : scope.hops.AllReach reached) (hleads : scope.hops.Leads c collection) :
    (c.restrict inner collection scope f).Ensures bad
      fun restricted => restricted.1.hops.AllReach reached := by
  have hf := isUnfolded_unfolded f
  rw [restrict_eq]
  exact h.addFilter hkeys hroot hhops fun hjoin hreach =>
    h.condition? f.unfolded hf hkeys hcompare hroot hreach (hleads.joinFilter hf hjoin)

/-! ### Requests -/

/-- A column whose path is joined first. -/
theorem joinedColumn {key : String} (hkeys : ∀ segment ∈ fieldPath key, followed segment)
    (hroot : reached collection) (hhops : scope.hops.AllReach reached) :
    (c.joinedColumn collection scope key).Ensures bad
      fun joined => joined.1.hops.AllReach reached := by
  unfold Context.joinedColumn
  refine .bind (h.joinPath hkeys hroot hhops) fun joined hjoined => ?_
  exact (h.column hroot hjoined).bind_ensures fun _ => .pure hjoined

theorem sortBy {entry : String} (hkeys : ∀ segment ∈ sortPath entry, followed segment)
    (hroot : reached collection) (hhops : scope.hops.AllReach reached) :
    (c.sortBy collection scope entry).Ensures bad fun scope => scope.hops.AllReach reached := by
  unfold Context.sortBy
  refine Compile.Avoids.bind_ensures (.lift ?_) fun {found k k'} hgives => ?_
  · unfold Context.sortKey
    split
    split
    · exact .error (h.other _ rfl rfl)
    · exact .ok _
  · obtain ⟨direction, key⟩ := found
    rw [← fieldPath_of_sortKey (Compile.gives_lift.mp hgives).1] at hkeys
    exact .bind (h.joinedColumn hkeys hroot hhops) fun _ hjoined => .pure hjoined

theorem groupBy {key : String} (hkeys : ∀ segment ∈ fieldPath key, followed segment)
    (hroot : reached collection) (hhops : scope.hops.AllReach reached) :
    (c.groupBy collection scope key).Ensures bad fun scope => scope.hops.AllReach reached :=
  .bind (h.joinedColumn hkeys hroot hhops) fun _ hjoined => .pure hjoined

theorem search {q : Query} (term : String) : (c.search collection q term).Avoids bad :=
  .bind (h.ask _) fun _ => .pure _

theorem aggregateItems {info : CollectionInfo} {entry : Aggregation × List String}
    (hroot : reached info.name) (hhops : scope.hops.AllReach reached) :
    (c.aggregateItems info scope entry).Avoids bad := by
  obtain ⟨aggregation, fields⟩ := entry
  unfold Context.aggregateItems
  dsimp only
  split
  · exact .pure _
  · refine .mapM fun field _ => .bind ?_ fun _ => .pure _
    unfold Context.aggregateExpr
    split
    · split
      · exact .pure _
      · exact .throw (h.other _ rfl rfl)
    · exact .bind (h.column hroot hhops) fun _ => .pure _

theorem addAggregate {info : CollectionInfo} {aggregate : List (Aggregation × List String)}
    (hkeys : ∀ field ∈ aggregate.flatMap Prod.snd, ∀ segment ∈ fieldPath field, followed segment)
    (hroot : reached info.name) (hhops : scope.hops.AllReach reached) :
    (c.addAggregate info scope aggregate).Avoids bad := by
  have hjoined : (c.joinAggregate info.name scope aggregate).Ensures bad
      fun scope => scope.hops.AllReach reached :=
    .foldlM (fun scope hhops field hfield => by
      rw [← bind_pure_comp]
      exact .bind (h.joinPath (hkeys field hfield) hroot hhops) fun _ hnext => .pure hnext) hhops
  refine .bind hjoined.avoids fun hgives => ?_
  refine .bind (.mapM fun entry _ => ?_) fun _ => .pure _
  exact h.aggregateItems hroot (hjoined.gives hgives)

/-- A request that follows no other segments avoids the failures, if its comparisons do. -/
theorem apply {q : Query} (hkeys : ∀ segment ∈ r.segments, followed segment)
    (hcompare : ∀ f, r.filter = some f → c.AvoidsComparing bad collection f.unfolded)
    (hroot : reached collection)
    (hnamed : ∀ info, c.provider.collection collection = .ok (some info) →
      info.name = collection) :
    (c.apply collection q r false).Avoids bad := by
  have hfields : ∀ path ∈ r.fieldPaths, ∀ segment ∈ path, followed segment :=
    fun path hpath segment hsegment => hkeys segment
      (List.mem_append_left _ (List.mem_flatten.mpr ⟨path, hpath, hsegment⟩))
  rw [apply_eq]
  refine .bind (h.collection _ hroot) fun {info k k'} hinfo => ?_
  have hname : info.name = collection := hnamed info (collection_gives.mp hinfo).1
  have horder : (c.orderStage collection false r q).Ensures bad
      fun scope => scope.hops.AllReach reached := by
    rw [orderStage, if_neg Bool.false_ne_true]
    refine .foldlM (fun scope hhops entry hentry => ?_) .empty
    exact h.sortBy (hfields _ (List.mem_append_left _
      (List.mem_append_left _ (List.mem_map_of_mem hentry)))) hroot hhops
  have hsearch (scope : Scope) (hhops : scope.hops.AllReach reached) :
      (c.searchStage collection r scope).Ensures bad fun found => found.hops = scope.hops := by
    unfold searchStage
    split
    · exact .pure rfl
    · rw [← bind_pure_comp]
      exact (h.search _).bind_ensures fun _ => .pure rfl
  have hgroup (scope : Scope) (hhops : scope.hops.AllReach reached) :
      (r.group.foldlM (c.groupBy collection) scope).Ensures bad
        fun scope => scope.hops.AllReach reached := by
    refine .foldlM (fun scope hhops key hkey => ?_) hhops
    exact h.groupBy (hfields _ (List.mem_append_left _
      (List.mem_append_right _ (List.mem_map_of_mem hkey)))) hroot hhops
  have hfilter (scope : Scope) (hhops : scope.hops.AllReach reached)
      (hleads : scope.hops.Leads c collection) :
      (c.filterStage collection false r scope).Ensures bad
        fun restricted => restricted.1.hops.AllReach reached := by
    unfold filterStage
    split
    · exact .pure hhops
    · next f hsome =>
      refine h.restrict (fun segment hsegment => hkeys segment ?_) (hcompare f hsome) hroot hhops
        hleads
      exact List.mem_append_right _
        (List.mem_flatMap.mpr ⟨f, Option.mem_toList.mpr hsome, hsegment⟩)
  have haggregate (scope : Scope) (hhops : scope.hops.AllReach reached) :
      (c.aggregateStage info r scope).Avoids bad := by
    unfold aggregateStage
    split
    · exact .pure _
    · refine h.addAggregate (fun field hfield => hfields _ ?_) (hname ▸ hroot) hhops
      exact List.mem_append_right _ (List.mem_map_of_mem hfield)
  refine .bind horder.avoids fun h₁ => ?_
  have hsearch := hsearch _ (horder.gives h₁)
  refine .bind hsearch.avoids fun h₂ => ?_
  have hgroup := hgroup _ (hsearch.gives h₂ ▸ horder.gives h₁)
  refine .bind hgroup.avoids fun h₃ => ?_
  have hsorted : ∀ path ∈ r.sort.map sortPath, IsPath path := by
    intro path hpath
    obtain ⟨entry, -, rfl⟩ := List.mem_map.mp hpath
    exact isPath_fieldPath _
  have hgrouped : ∀ path ∈ r.group.map fieldPath, IsPath path := by
    intro path hpath
    obtain ⟨key, -, rfl⟩ := List.mem_map.mp hpath
    exact isPath_fieldPath key
  have hleads := (Prepares.of_groupStage h₃).leads hgrouped
    (hsearch.gives h₂ ▸ (Prepares.of_orderStage h₁).leads hsorted .empty)
  have hfilter := hfilter _ (hgroup.gives h₃) hleads
  refine .bind hfilter.avoids fun h₄ => ?_
  exact .bind (haggregate _ (hfilter.gives h₄)) fun _ => .pure _

end IsShielded

namespace IsGuarded

variable (h : c.IsGuarded bad reached followed)
include h

/-! ### Comparisons -/

theorem checkOperator (column : Column) (operator : Operator) :
    AvoidsResult bad (Context.checkOperator column operator) := by
  unfold Context.checkOperator
  split
  · exact .error (h.ofLink _ rfl)
  · split
    · exact .ok ()
    · exact .error (h.ofLink _ rfl)

theorem compare? (column : Column) (comparison : Comparison) :
    AvoidsResult bad (c.compare? column comparison) :=
  avoids_compare? (fun _ _ => h.ofLink _ rfl) (h.checkOperator column comparison.operator)

/-- A request that follows no other segments avoids the failures. -/
theorem apply {q : Query} (hkeys : ∀ segment ∈ r.segments, followed segment)
    (hroot : reached collection)
    (hnamed : ∀ info, c.provider.collection collection = .ok (some info) →
      info.name = collection) :
    (c.apply collection q r false).Avoids bad :=
  h.toIsShielded.apply hkeys (fun _ _ _ _ comparison _ column _ _ => h.compare? column comparison)
    hroot hnamed

end IsGuarded

end Context

/-- A compilation over a schema fails where the request is added to the statement. -/
theorem avoids_compile_of_apply {s : Schema} {options : Options} {letters : Alias.Letters}
    {bad : QueryError → Bool} {collection : String} {r : Request}
    (h : ((s.context options (s.compiler options letters).names).apply collection
      (Compiler.target collection r) r false).Avoids bad) :
    AvoidsResult bad ((s.compiler options letters).compile collection r) := by
  refine .bind (.bind (.ok s.relations) fun relations hrelations => ?_) fun _ _ => .ok _
  obtain rfl : s.relations = relations := Except.ok.inj hrelations
  exact .bind (h 0) fun _ _ => .ok _

/-- A request that follows no other segments does not fail with links. -/
theorem avoids_compile {s : Schema} {options : Options} {letters : Alias.Letters}
    {bad : QueryError → Bool} {reached followed : String → Prop} {collection : String} {r : Request}
    (h : (s.context options (s.compiler options letters).names).IsGuarded bad reached followed)
    (hkeys : ∀ segment ∈ r.segments, followed segment) (hroot : reached collection) :
    AvoidsResult bad ((s.compiler options letters).compile collection r) :=
  avoids_compile_of_apply (h.apply hkeys hroot fun _ => s.name_of_collection)

end JsonSql
