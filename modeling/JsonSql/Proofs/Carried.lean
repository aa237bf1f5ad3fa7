import JsonSql.Proofs.Columns
import JsonSql.Proofs.Prefixes

set_option autoImplicit false

/-!
# Compilations that carry over

Whether a part of a request compiles depends on the schema and on where the joins lead that it
looks at.  It does not depend on how many aliases were issued before, nor on what else is joined.
So what compiles in one place compiles in another one (`Compile.Carries`), and whether a filter
restricts anything is the same in both (`carries_condition?`).
-/

namespace JsonSql

open JsonSql.Sql

namespace Compile

variable {α β γ δ : Type} {R : α → β → Prop} {S : γ → δ → Prop} {x : Compile α} {y : Compile β}

/-- Where the first step succeeds, so does the second one, from any count of aliases, and their
results are related. -/
def Carries (R : α → β → Prop) (x : Compile α) (y : Compile β) : Prop :=
  ∀ k a k', x.Gives k a k' → ∀ j, ∃ b j', y.Gives j b j' ∧ R a b

theorem carries_pure {a : α} {b : β} (h : R a b) : Carries R (pure a) (pure b) := by
  intro k found k' hgives j
  obtain ⟨rfl, -⟩ := gives_pure.mp hgives
  exact ⟨b, j, gives_pure.mpr ⟨rfl, rfl⟩, h⟩

theorem carries_throw {e : QueryError} : Carries R (throw e) y :=
  fun _ _ _ h => absurd h not_gives_throw

theorem Carries.bind {f : α → Compile γ} {g : β → Compile δ} (h : Carries R x y)
    (hnext : ∀ a b, R a b → Carries S (f a) (g b)) : Carries S (x >>= f) (y >>= g) := by
  intro k c k' hgives j
  obtain ⟨a, k₁, ha, hc⟩ := gives_bind.mp hgives
  obtain ⟨b, j₁, hb, hab⟩ := h k a k₁ ha j
  obtain ⟨d, j', hd, hcd⟩ := hnext a b hab k₁ c k' hc j₁
  exact ⟨d, j', gives_bind.mpr ⟨b, j₁, hb, hd⟩, hcd⟩

theorem Carries.map {f : α → γ} {g : β → δ} (h : Carries R x y)
    (hnext : ∀ a b, R a b → S (f a) (g b)) : Carries S (f <$> x) (g <$> y) := by
  rw [← bind_pure_comp, ← bind_pure_comp]
  exact h.bind fun a b hab => carries_pure (hnext a b hab)

/-- A step whose result does not depend on the count of aliases. -/
theorem carries_self {z : Compile α} (h : ∀ {k a k'}, z.Gives k a k' → ∀ j, z.Gives j a j) :
    Carries Eq z z :=
  fun _ a _ hgives j => ⟨a, j, h hgives j, rfl⟩

/-- A computation without aliases. -/
theorem carries_lift {u : Except QueryError α} {v : Except QueryError β}
    (h : ∀ a, u = .ok a → ∃ b, v = .ok b ∧ R a b) : Carries R (liftM u) (liftM v) := by
  intro k a k' hgives j
  obtain ⟨b, hb, hab⟩ := h a (gives_lift.mp hgives).1
  exact ⟨b, j, gives_lift.mpr ⟨hb, rfl⟩, hab⟩

end Compile

open Compile (Carries carries_pure carries_throw carries_self carries_lift)

/-! ## Joins -/

/-- Two records of joins know the same path, with the same collection at its end, or neither knows
it. -/
def Hops.AgreeAt (hops hops' : Hops) (path : List String) : Prop :=
  (hops.get? path).map Hop.collection = (hops'.get? path).map Hop.collection

namespace Hops.AgreeAt

variable {hops hops' : Hops} {path : List String}

theorem cases (h : AgreeAt hops hops' path) : (hops.get? path = none ∧ hops'.get? path = none) ∨
    ∃ hop hop', hops.get? path = some hop ∧ hops'.get? path = some hop' ∧
      hop.collection = hop'.collection := by
  unfold AgreeAt at h
  cases hfound : hops.get? path with
  | none =>
    rw [hfound] at h
    exact .inl ⟨rfl, Option.map_eq_none_iff.mp h.symm⟩
  | some hop =>
    rw [hfound] at h
    obtain ⟨hop', hfound', hsame⟩ := Option.map_eq_some_iff.mp h.symm
    exact .inr ⟨hop, hop', rfl, hfound', hsame.symm⟩

/-- The same join is recorded in both. -/
theorem insert {other : List String} {hop hop' : Hop} (h : AgreeAt hops hops' other)
    (hsame : hop.collection = hop'.collection) :
    AgreeAt (hops.insert path hop) (hops'.insert path hop') other := by
  unfold AgreeAt
  by_cases hkey : Hops.key other = Hops.key path
  · rw [Hops.get?, Hops.get?, hkey, ← Hops.get?, ← Hops.get?, Hops.get?_insert_self,
      Hops.get?_insert_self, Option.map_some, Option.map_some, hsame]
  · rw [Hops.get?_insert_of_ne _ hkey, Hops.get?_insert_of_ne _ hkey]
    exact h

end Hops.AgreeAt

/-- Two records of joins know the same paths. -/
def Hops.Agree (hops hops' : Hops) : Prop := ∀ path, hops.AgreeAt hops' path

namespace Context

variable {c : Context} {inner : Bool} {collection : String}

theorem carries_primary (c : Context) (name : String) :
    Carries Eq (c.primary name) (c.primary name) :=
  carries_self fun h _ => by
    obtain ⟨info, hinfo, rfl, -⟩ := primary_gives.mp h
    exact primary_gives.mpr ⟨info, hinfo, rfl, rfl⟩

theorem carries_collection (c : Context) (name : String) :
    Carries Eq (c.collection name) (c.collection name) :=
  carries_self fun h _ => collection_gives.mpr ⟨(collection_gives.mp h).1, rfl⟩

theorem carries_field (c : Context) (owner name : String) :
    Carries Eq (c.field owner name) (c.field owner name) :=
  carries_self fun h _ => field_gives.mpr ⟨(field_gives.mp h).1, rfl⟩

theorem carries_discriminator (r : Relation) (owner field : String) :
    Carries Eq (discriminator r owner field) (discriminator r owner field) :=
  carries_self fun h _ => discriminator_gives.mpr ⟨(discriminator_gives.mp h).1, rfl⟩

theorem carries_freshAlias (c : Context) :
    Carries (fun _ _ => True) c.freshAlias c.freshAlias :=
  fun _ _ _ _ j => ⟨c.names j, j + 1, freshAlias_gives.mpr ⟨rfl, rfl⟩, trivial⟩

/-- A link is joined to the same collection, whatever the tables are called. -/
theorem carries_joinTarget {place place' : Place} {segment table table' : String}
    (hsame : place.collection = place'.collection) (link : Link) :
    Carries (fun found found' => found.1 = found'.1) (c.joinTarget place segment table link)
      (c.joinTarget place' segment table' link) := by
  cases link with
  | none => exact carries_throw
  | manyToOne r =>
    unfold joinTarget
    dsimp only
    split
    · exact carries_throw
    · exact (carries_primary c _).bind fun _ _ _ => carries_pure rfl
  | manyToAny r scope =>
    unfold joinTarget
    dsimp only
    rw [← hsame]
    split
    · exact carries_throw
    · split
      · exact (carries_discriminator r _ _).bind fun _ _ _ =>
          (carries_primary c _).bind fun _ _ _ => carries_pure rfl
      · exact carries_throw
  | oneToMany r =>
    rw [joinTarget, joinTarget, ← hsame]
    exact (carries_primary c _).bind fun _ _ _ => carries_pure rfl
  | oneToAny r =>
    rw [joinTarget, joinTarget, ← hsame]
    exact (carries_discriminator r _ _).bind fun _ _ _ =>
      (carries_primary c _).bind fun _ _ _ => carries_pure rfl

theorem carries_join {scope scope' : Scope} {path : List String} {place place' : Place}
    {segment : String} {link : Link} (hsame : place.collection = place'.collection)
    (hagree : scope.hops.Agree scope'.hops) :
    Carries (fun joined joined' => joined.1.hops.Agree joined'.1.hops ∧
        joined.2.collection = joined'.2.collection)
      (c.join scope path place segment link) (c.join scope' path place' segment link) := by
  unfold join
  refine (carries_freshAlias c).bind fun name name' _ =>
    (carries_joinTarget hsame link).bind fun ⟨target, condition⟩ ⟨target', condition'⟩ htarget => ?_
  exact carries_pure ⟨fun other => (hagree other).insert htarget, htarget⟩

/-- A segment that is followed by another one is passed over, followed or joined. -/
theorem joinFrom_cons (place : Place) (before : List String) (scope : Scope)
    (segment next : String) (rest : List String) :
    c.joinFrom inner place before scope (segment :: next :: rest) =
      if c.link place.collection segment = .none then pure (scope, false)
      else match scope.hops.get? (before ++ [segment]) with
        | some hop =>
          if leadsOn inner place (c.link place.collection segment) then
            c.joinFrom inner hop.place (before ++ [segment]) scope (next :: rest)
          else pure (scope, false)
        | none =>
          if isJoined inner place (c.link place.collection segment) then do
            let (scope, hop) ← c.join scope (before ++ [segment]) place segment
              (c.link place.collection segment)
            if leadsOn inner place (c.link place.collection segment) then
              let (scope, several) ←
                c.joinFrom inner hop.place (before ++ [segment]) scope (next :: rest)
              return (scope, (c.link place.collection segment).isToMany || several)
            else return (scope, (c.link place.collection segment).isToMany)
          else pure (scope, false) := by
  rw [joinFrom]
  dsimp only
  cases c.link place.collection segment <;>
    cases scope.hops.get? (before ++ [segment]) <;> rfl

/-- Joining along a path carries over to a statement that has the same joins. -/
theorem carries_joinFrom {segments : List String} :
    ∀ {before : List String} {place place' : Place} {scope scope' : Scope},
      place.collection = place'.collection → place.isRoot = place'.isRoot →
      scope.hops.Agree scope'.hops →
      Carries (fun joined joined' => joined.1.hops.Agree joined'.1.hops)
        (c.joinFrom inner place before scope segments)
        (c.joinFrom inner place' before scope' segments) := by
  induction segments with
  | nil => exact fun _ _ hagree => carries_pure hagree
  | cons segment segments ih =>
    intro before place place' scope scope' hsame hroot hagree
    cases segments with
    | nil => exact carries_pure hagree
    | cons next rest =>
      rw [joinFrom_cons, joinFrom_cons, ← hsame, ← leadsOn_congr hroot, ← isJoined_congr hroot]
      split
      · exact carries_pure hagree
      · rcases (hagree (before ++ [segment])).cases with ⟨hnew, hnew'⟩ |
          ⟨hop, hop', hfound, hfound', htarget⟩
        · rw [hnew, hnew']
          dsimp only
          split
          · refine (carries_join hsame hagree).bind
              fun ⟨joined, hop⟩ ⟨joined', hop'⟩ ⟨hjoined, htarget⟩ => ?_
            have hplace : hop.place.collection = hop'.place.collection := htarget
            dsimp only
            split
            · exact (ih hplace rfl hjoined).bind fun _ _ hlast => carries_pure hlast
            · exact carries_pure hjoined
          · exact carries_pure hagree
        · rw [hfound, hfound']
          have hplace : hop.place.collection = hop'.place.collection := htarget
          dsimp only
          split
          · exact ih hplace rfl hagree
          · exact carries_pure hagree

theorem carries_joinPaths {scope scope' : Scope} (paths : List (List String))
    (hagree : scope.hops.Agree scope'.hops) :
    Carries (fun joined joined' => joined.1.hops.Agree joined'.1.hops)
      (c.joinPaths inner collection scope paths) (c.joinPaths inner collection scope' paths) := by
  induction paths generalizing scope scope' with
  | nil => exact carries_pure hagree
  | cons path rest ih =>
    rw [joinPaths, joinPaths]
    exact (carries_joinFrom rfl rfl hagree).bind fun _ _ hfirst =>
      (ih hfirst).bind fun _ _ hlast => carries_pure hlast

/-! ## Columns -/

/-- Parents that are joined to the same collection are a place on it. -/
theorem placeOf_agree {hops hops' : Hops} {parents : List String} {shown : String} {place : Place}
    (hagree : parents ≠ [] → hops.AgreeAt hops' parents)
    (h : placeOf hops collection parents shown = .ok place) :
    ∃ place', placeOf hops' collection parents shown = .ok place' ∧
      place.collection = place'.collection := by
  rcases placeOf_eq_ok h with ⟨rfl, rfl⟩ | ⟨hsome, hop, hfound, rfl⟩
  · exact ⟨.root collection, rfl, rfl⟩
  · rcases (hagree hsome).cases with ⟨hnone, -⟩ | ⟨found, hop', hfound', hother, hsame⟩
    · cases hnone.symm.trans hfound
    · obtain rfl := Option.some.inj (hfound.symm.trans hfound')
      refine ⟨hop'.place, ?_, hsame⟩
      rw [placeOf, if_neg hsome, hother]

theorem carries_countRows? (owner table table' : String) (link : Link) :
    Carries (fun e? e'? => e?.isSome = e'?.isSome) (c.countRows? owner table link)
      (c.countRows? owner table' link) := by
  unfold countRows?
  refine (carries_primary c owner).bind fun _ _ _ => (carries_freshAlias c).bind fun _ _ _ => ?_
  cases link with
  | oneToAny r =>
    dsimp only
    cases r.info.discriminator <;> exact carries_pure rfl
  | none | manyToOne _ | manyToAny _ _ | oneToMany _ => exact carries_pure rfl

theorem carries_applyFunction {place place' : Place} (hsame : place.collection = place'.collection)
    (function path field : String) (type : FieldType) :
    Carries (fun _ _ => True) (c.applyFunction place function path field type)
      (c.applyFunction place' function path field type) := by
  unfold applyFunction
  dsimp only
  rw [← hsame]
  split
  · exact carries_throw
  · next part _ =>
    unfold partOf
    cases type.dateKind? with
    | none => exact carries_throw
    | some kind =>
      dsimp only
      cases isPartOf part kind with
      | false => exact carries_throw
      | true => exact carries_pure trivial
  · split
    · refine carries_lift fun e h => ?_
      unfold jsonLength Dialect.jsonArrayLength? at h ⊢
      cases hdialect : c.dialect <;> rw [hdialect] at h <;> first
        | exact ⟨_, rfl, trivial⟩
        | cases h
    · refine (carries_countRows? _ _ _ _).bind fun e? e'? hsome => ?_
      cases e? with
      | none => exact carries_throw
      | some e =>
        obtain ⟨e', rfl⟩ := Option.isSome_iff_exists.mp hsome.symm
        exact carries_pure trivial

/-- The column of a path is the same but for its expression. -/
theorem carries_column {hops hops' : Hops} {path : List String}
    (hagree : path.dropLast ≠ [] → hops.AgreeAt hops' path.dropLast) :
    Carries (fun column column' => column' = { column with expr := column'.expr })
      (c.column hops collection path) (c.column hops' collection path) := by
  unfold Context.column
  dsimp only
  split
  · exact carries_throw
  · refine (carries_lift fun place hplace => placeOf_agree hagree hplace).bind
      fun place place' hsame => ?_
    rw [← hsame]
    refine (carries_field c _ _).bind fun field _ hfield => ?_
    subst hfield
    split
    · split
      · exact carries_throw
      · exact carries_pure rfl
    · exact (carries_applyFunction hsame _ _ _ _).bind fun _ _ _ => carries_pure rfl

/-! ## Comparisons -/

/-- Whether an operator has a predicate on a column does not depend on the expression of it. -/
theorem predicate?_isSome_congr (operator : Operator) (d : Dialect) (e e' : Expr)
    (values : List Literal) (kept : Bool) :
    (operator.predicate? d e values kept).map Option.isSome =
      (operator.predicate? d e' values kept).map Option.isSome := by
  cases operator with
  | between negated =>
    unfold Operator.predicate?
    dsimp only
    split <;> rfl
  | intersects boxes negated =>
    unfold Operator.predicate?
    dsimp only
    split
    · cases d <;> rfl
    · rfl
  | null _ | empty _ | oneOf _ => rfl
  | equal _ _ | less | lessOrEqual | greater | greaterOrEqual | holds _ _ _ =>
    cases values <;> rfl

theorem compare?_isSome_congr {column column' : Column}
    (hsame : column' = { column with expr := column'.expr }) (comparison : Comparison) :
    (c.compare? column comparison).map Option.isSome =
      (c.compare? column' comparison).map Option.isSome := by
  have hcheck (operator : Operator) :
      checkOperator column' operator = checkOperator column operator := by
    rw [hsame]
    rfl
  have hkind : column'.valueKind = column.valueKind := by
    rw [hsame]
    rfl
  unfold compare?
  dsimp only
  rw [hcheck, hkind]
  cases checkOperator column comparison.operator with
  | error e => rfl
  | ok admitted =>
    simp only [bind, Except.bind]
    split
    · rfl
    · exact predicate?_isSome_congr _ _ _ _ _ _

theorem mapM_isSome_congr {f g : Comparison → Except QueryError (Option Expr)}
    (h : ∀ comparison, (f comparison).map Option.isSome = (g comparison).map Option.isSome)
    (comparisons : List Comparison) :
    (comparisons.mapM f).map (List.map Option.isSome) =
      (comparisons.mapM g).map (List.map Option.isSome) := by
  induction comparisons with
  | nil => rfl
  | cons comparison rest ih =>
    rw [List.mapM_cons, List.mapM_cons]
    have hfirst := h comparison
    cases hf : f comparison <;> cases hg : g comparison <;> rw [hf, hg] at hfirst
    · exact congrArg Except.error (Except.error.inj hfirst)
    · cases hfirst
    · cases hfirst
    · cases hfs : rest.mapM f <;> cases hgs : rest.mapM g <;> rw [hfs, hgs] at ih
      · exact congrArg Except.error (Except.error.inj ih)
      · cases ih
      · cases ih
      · exact congrArg Except.ok
          (congrArg₂ List.cons (Except.ok.inj hfirst) (Except.ok.inj ih))

/-- There is something to say unless there are no parts. -/
theorem isSome_conjunction? (parts : List Expr) :
    (conjunction? parts).isSome = !parts.isEmpty := by
  cases parts <;> rfl

theorem isSome_disjunction? (parts : List Expr) :
    (disjunction? parts).isSome = !parts.isEmpty := by
  cases parts <;> rfl

theorem isSome_conjunction?_reduceOption (parts : List (Option Expr)) :
    (conjunction? parts.reduceOption).isSome = (parts.map Option.isSome).any id := by
  induction parts with
  | nil => rfl
  | cons part rest ih =>
    cases part with
    | none => exact ih
    | some e => rfl

/-- Comparisons of columns that differ in their expressions restrict something in both or in
neither. -/
theorem compareAll?_agree {column column' : Column} {comparisons : List Comparison}
    {e? : Option Expr} (hsame : column' = { column with expr := column'.expr })
    (h : c.compareAll? column comparisons = .ok e?) :
    ∃ e'?, c.compareAll? column' comparisons = .ok e'? ∧ e?.isSome = e'?.isSome := by
  rw [compareAll?, Except.bind_eq_ok_iff] at h
  obtain ⟨parts, hparts, hresult⟩ := h
  cases hresult
  have hagree := mapM_isSome_congr (compare?_isSome_congr (c := c) hsame) comparisons
  rw [hparts] at hagree
  cases hparts' : comparisons.mapM (c.compare? column') with
  | error e =>
    rw [hparts'] at hagree
    cases hagree
  | ok parts' =>
    rw [hparts'] at hagree
    refine ⟨conjunction? parts'.reduceOption, ?_, ?_⟩
    · rw [compareAll?, hparts']
      rfl
    · rw [isSome_conjunction?_reduceOption, isSome_conjunction?_reduceOption,
        Except.ok.inj hagree]

/-! ## Conditions -/

theorem quantifiedLink_agree {hops hops' : Hops} {parents : List String} {segment : String}
    {found : Hop × Link} (hagree : hops.AgreeAt hops' parents)
    (h : c.quantifiedLink hops parents segment = .ok found) :
    ∃ found', c.quantifiedLink hops' parents segment = .ok found' ∧
      found.1.collection = found'.1.collection ∧ found.2 = found'.2 := by
  unfold quantifiedLink at h ⊢
  rcases hagree.cases with ⟨hnone, -⟩ | ⟨hop, hop', hhop, hhop', hsame⟩
  · rw [hnone] at h
    cases h
  · rw [hhop] at h
    rw [hhop']
    dsimp only at h ⊢
    rw [← hsame]
    split at h
    · next hmany =>
      cases h
      exact ⟨_, if_pos hmany, hsame, rfl⟩
    · cases h

/-- Two conditions of which both or neither restrict anything. -/
abbrev RestrictAlike (e? e'? : Option Expr) : Prop := e?.isSome = e'?.isSome

/-- A filter compiles alike on joins that agree, at the root of a statement of its own. -/
def CompilesAlike (c : Context) (f : Filter) : Prop :=
  ∀ (related : String) (hops hops' : Hops), hops.Agree hops' →
    Carries RestrictAlike (c.condition? hops related [] f) (c.condition? hops' related [] f)

theorem carries_existential {owner table table' : String} {link : Link} {quantifier : Quantifier}
    {f : Filter} (hf : c.CompilesAlike f) :
    Carries (fun _ _ => True)
      (c.existential owner table link quantifier f
        fun related hops => c.condition? hops related [] f)
      (c.existential owner table' link quantifier f
        fun related hops => c.condition? hops related [] f) := by
  have hkeys : Carries Eq (relatedKeys owner link) (relatedKeys owner link) := by
    cases link with
    | oneToMany r => exact carries_pure rfl
    | oneToAny r =>
      unfold relatedKeys
      dsimp only
      cases r.info.discriminator with
      | none => exact carries_throw
      | some column => exact carries_pure rfl
    | none | manyToOne _ | manyToAny _ _ => exact carries_throw
  unfold existential amongKeys addFilter restricted
  refine hkeys.bind fun ⟨r, keys, polymorphic⟩ _ hsame => ?_
  subst hsame
  dsimp only
  refine (carries_collection c r.collection).bind fun _ _ _ => ?_
  rw [joinFilter_eq]
  refine Carries.bind (R := fun _ _ => True) ?_ fun _ _ _ =>
    (carries_primary c owner).bind fun _ _ _ => carries_pure trivial
  refine (carries_joinPaths _ fun _ => rfl).bind
    fun ⟨scope, several⟩ ⟨scope', several'⟩ hagree => ?_
  refine (hf r.collection scope.hops scope'.hops hagree).bind fun e? e'? hrestricts => ?_
  cases e? <;> cases e'? <;> exact carries_pure trivial

theorem isEmpty_append_congr {part part' : Option Expr} {parts parts' : List Expr}
    (hpart : RestrictAlike part part') (hparts : parts.isEmpty = parts'.isEmpty) :
    (part.toList ++ parts).isEmpty = (part'.toList ++ parts').isEmpty := by
  cases part <;> cases part' <;> first
    | exact hparts
    | rfl
    | cases hpart

mutual
/-- Whether a filter compiles, and whether it restricts anything, depends on the collections alone
that its paths are joined to. -/
theorem carries_condition? {hops hops' : Hops} (collection : String) (parents : List String)
    (f : Filter)
    (hagree : ∀ path ∈ c.filterPaths collection parents f, hops.AgreeAt hops' path.dropLast) :
    Carries RestrictAlike (c.condition? hops collection parents f)
      (c.condition? hops' collection parents f) := by
  obtain ⟨clauses⟩ := f
  rw [condition?, condition?]
  exact (carries_clauseConditions collection parents clauses hagree).map fun parts parts' hlength =>
    by rw [RestrictAlike, isSome_conjunction?, isSome_conjunction?, hlength]

theorem carries_clauseConditions {hops hops' : Hops} (collection : String) (parents : List String)
    (clauses : List Clause)
    (hagree : ∀ path ∈ c.clausesPaths collection parents clauses,
      hops.AgreeAt hops' path.dropLast) :
    Carries (fun parts parts' : List Expr => parts.isEmpty = parts'.isEmpty)
      (c.clauseConditions hops collection parents clauses)
      (c.clauseConditions hops' collection parents clauses) := by
  cases clauses with
  | nil =>
    rw [clauseConditions, clauseConditions]
    exact carries_pure rfl
  | cons clause rest =>
    rw [clausesPaths] at hagree
    rw [clauseConditions, clauseConditions]
    refine (carries_clauseCondition? collection parents clause fun path hpath =>
      hagree path (List.mem_append_left _ hpath)).bind fun part part' hpart => ?_
    refine (carries_clauseConditions collection parents rest fun path hpath =>
      hagree path (List.mem_append_right _ hpath)).bind fun parts parts' hparts => ?_
    exact carries_pure (isEmpty_append_congr hpart hparts)

theorem carries_clauseCondition? {hops hops' : Hops} (collection : String) (parents : List String)
    (clause : Clause)
    (hagree : ∀ path ∈ c.clausePaths collection parents clause,
      hops.AgreeAt hops' path.dropLast) :
    Carries RestrictAlike (c.clauseCondition? hops collection parents clause)
      (c.clauseCondition? hops' collection parents clause) := by
  cases clause with
  | all filters =>
    rw [clausePaths] at hagree
    rw [clauseCondition?, clauseCondition?]
    exact (carries_groupConditions collection parents filters hagree).map
      fun parts parts' hempty => by
        rw [RestrictAlike, isSome_conjunction?, isSome_conjunction?, hempty]
  | any filters =>
    rw [clausePaths] at hagree
    rw [clauseCondition?, clauseCondition?]
    split
    · exact carries_pure rfl
    · next hrestricts =>
      rw [if_neg hrestricts] at hagree
      exact (carries_groupConditions collection parents filters hagree).map
        fun parts parts' hempty => by
          rw [RestrictAlike, isSome_disjunction?, isSome_disjunction?, hempty]
  | field key condition =>
    rw [clausePaths] at hagree
    rw [clauseCondition?, clauseCondition?]
    refine carries_fieldCondition? collection parents key condition fun hjoined path hpath => ?_
    rw [if_neg (by rw [hjoined]; exact Bool.false_ne_true)] at hagree
    exact hagree path hpath

theorem carries_groupConditions {hops hops' : Hops} (collection : String) (parents : List String)
    (filters : List Filter)
    (hagree : ∀ path ∈ c.filtersPaths collection parents filters,
      hops.AgreeAt hops' path.dropLast) :
    Carries (fun parts parts' : List Expr => parts.isEmpty = parts'.isEmpty)
      (c.groupConditions hops collection parents filters)
      (c.groupConditions hops' collection parents filters) := by
  cases filters with
  | nil =>
    rw [groupConditions, groupConditions]
    exact carries_pure rfl
  | cons f rest =>
    rw [filtersPaths] at hagree
    rw [groupConditions, groupConditions]
    refine (carries_condition? collection parents f fun path hpath =>
      hagree path (List.mem_append_left _ hpath)).bind fun part part' hpart => ?_
    refine (carries_groupConditions collection parents rest fun path hpath =>
      hagree path (List.mem_append_right _ hpath)).bind fun parts parts' hparts => ?_
    refine carries_pure (isEmpty_append_congr ?_ hparts)
    rw [RestrictAlike, Option.isSome_map, Option.isSome_map, hpart]

theorem carries_fieldCondition? {hops hops' : Hops} (collection : String) (parents : List String)
    (key : String) (condition : FieldCondition)
    (hagree : c.startsExistential collection parents key = false →
      ∀ path ∈ c.conditionPaths collection (parents ++ [Text.trim key]) condition,
        hops.AgreeAt hops' path.dropLast) :
    Carries RestrictAlike (c.fieldCondition? hops collection parents key condition)
      (c.fieldCondition? hops' collection parents key condition) := by
  cases condition with
  | compare comparisons =>
    rw [fieldCondition?, fieldCondition?]
    split
    · exact Carries.bind (R := fun _ _ => False) carries_throw fun _ _ h => h.elim
    · next hjoined =>
      have hparents := hagree (by simpa using hjoined) _ (List.mem_singleton_self _)
      refine (carries_column fun _ => hparents).bind fun column column' hsame => ?_
      exact carries_lift fun e? he => compareAll?_agree hsame he
  | nested f =>
    have hf : c.CompilesAlike f := fun related hops hops' hsame =>
      carries_condition? related [] f fun path _ => hsame path.dropLast
    rw [fieldCondition?, fieldCondition?]
    split
    · exact (carries_existential hf).map fun _ _ _ => rfl
    · next hjoined =>
      exact carries_condition? collection (parents ++ [Text.trim key]) f
        (hagree (by simpa using hjoined))
  | quantified quantifier f =>
    have hf : c.CompilesAlike f := fun related hops hops' hsame =>
      carries_condition? related [] f fun path _ => hsame path.dropLast
    rw [fieldCondition?, fieldCondition?]
    split
    · exact (carries_existential hf).map fun _ _ _ => rfl
    · next hjoined =>
      have hparents := hagree (by simpa using hjoined) _ (List.mem_singleton_self _)
      rw [List.dropLast_concat] at hparents
      refine (carries_lift fun found hfound => quantifiedLink_agree hparents hfound).bind
        fun ⟨hop, link⟩ ⟨hop', link'⟩ ⟨hcollection, hlink⟩ => ?_
      dsimp only at hcollection hlink ⊢
      rw [← hcollection, ← hlink]
      exact (carries_existential hf).map fun _ _ _ => rfl
end

/-- The predicate pass of a filter carries over to any other count of aliases. -/
theorem carries_predicatePass (hops : Hops) (collection : String) (parents : List String)
    (f : Filter) : Carries RestrictAlike (c.predicatePass hops collection parents f)
      (c.predicatePass hops collection parents f) := by
  rw [predicatePass_eq]
  exact carries_condition? collection parents f.unfolded fun _ _ => rfl

end Context

end JsonSql
