import JsonSql.Proofs.Precedence
import JsonSql.Proofs.Validated

set_option autoImplicit false

/-!
# Keys among keys

Wherever a compiled statement asks whether a value is, or is not, among those of another statement,
at any depth, the value is the key of a row of some table in scope, and the other statement is that
of the keys which the rows of one link refer to (`lookups_of_compile`): one column of one
collection, known and of the right collection, under whatever else the filter on these rows asks.
-/

namespace JsonSql

open JsonSql.Calendar
open JsonSql.Sql

namespace Sql

/-- A value that is asked to be, or not to be, among those of a statement. -/
structure Lookup where
  subject : Expr
  keys : Query
  negated : Bool

mutual
/-- The lookups in an expression, apart from those in the statements in it. -/
@[simp]
def Expr.lookups : Expr → List Lookup
  | .column _ _ | .literal _ | .allColumns _ | .raw _ | .subquery _ => []
  | .binary _ left right => left.lookups ++ right.lookups
  | .not inner | .paren inner => inner.lookups
  | .call _ args _ => exprsLookups args
  | .inList subject items _ => subject.lookups ++ exprsLookups items
  | .inQuery subject keys negated => subject.lookups ++ [⟨subject, keys, negated⟩]
  | .between subject low high _ => subject.lookups ++ low.lookups ++ high.lookups
  | .isNull subject _ | .cast subject _ => subject.lookups

/-- The lookups in expressions. -/
@[simp]
def exprsLookups : List Expr → List Lookup
  | [] => []
  | e :: rest => e.lookups ++ exprsLookups rest
end

/-- The lookups of a `SELECT`, in whichever of its parts. -/
def Query.lookups (q : Query) : List Lookup := q.parts.flatMap Expr.lookups

/-- The parts that hold together in a condition. -/
def Expr.conjuncts : Expr → List Expr
  | .binary .and left right => left.conjuncts ++ right.conjuncts
  | e => [e]

/-- A condition that, unless it is a disjunction, is a conjunction of parts that are none, so that
its parts are what its text reads as. -/
def Expr.IsConjoined (e : Expr) : Prop :=
  e.isDisjunction = false → ∀ part ∈ e.conjuncts, part.isDisjunction = false

/-- The statement of the keys that the rows of a relation refer to a collection with: it selects one
column of the collection of these rows, which goes by its own name, where the key is known and, if
there is a discriminator, names that collection.  It is neither grouped nor ordered nor limited. -/
structure Query.IsKeysOf (owner : String) (r : Relation) (discriminator : Option String)
    (q : Query) : Prop where
  items : q.items = [⟨.of r.collection r.field, none⟩]
  source : q.source = some ⟨r.collection, none⟩
  condition : ∃ e rest, q.condition = some e ∧
    e.conjuncts = .isNull (.of r.collection r.field) true ::
      (discriminator.toList.map fun column =>
        .equals (.of r.collection column) (.string owner)) ++ rest ∧
    ∀ part ∈ e.conjuncts, part.isDisjunction = false
  groups : q.groups = []
  orders : q.orders = []
  window : q.window = none

/-- The primary key of a table in scope, among the keys that the rows of one of its links refer to.
It is compared as text exactly if the link is polymorphic. -/
inductive Lookup.IsExistential (s : Schema) (tables : List TableRef) : Lookup → Prop
  | plain {t : TableRef} {owner : Collection} {segment : String} {r : Relation} {keys : Query}
      (negated : Bool) : t ∈ tables → s.collection? t.table = some owner →
      link s.relations t.table segment = .oneToMany r → keys.IsKeysOf t.table r none →
      IsExistential s tables ⟨.of t.referenceName owner.info.primary, keys, negated⟩
  | polymorphic {t : TableRef} {owner : Collection} {segment column : String} {r : Relation}
      {keys : Query} (negated : Bool) : t ∈ tables → s.collection? t.table = some owner →
      link s.relations t.table segment = .oneToAny r → r.info.discriminator = some column →
      keys.IsKeysOf t.table r (some column) →
      IsExistential s tables ⟨.cast (.of t.referenceName owner.info.primary) .text, keys, negated⟩

end Sql

/-! ## Conjunctions -/

section Conjunctions

variable {names : List String} {column e : Expr}

theorem conjuncts_both (left right : Expr) :
    (Expr.both left right).conjuncts = left.conjuncts ++ right.conjuncts := by
  rw [Expr.both, Expr.conjuncts]

theorem conjuncts_equals (left right : Expr) :
    (Expr.equals left right).conjuncts = [.equals left right] := by
  simp [Expr.equals, Expr.conjuncts]

/-- A predicate is one part of a condition. -/
theorem IsPredicate.conjuncts (h : IsPredicate column e) : e.conjuncts = [e] := by
  cases h with
  | null negated | oneOf values negated | between low high negated => rfl
  | @compare op value hop | @compareLower op value hop => cases op <;> first | rfl | cases hop
  | @intersects d geojson boxes negated e he =>
    cases negated with
    | true => rfl
    | false => cases d <;> cases boxes <;> cases he <;> rfl

/-- What is one part by itself is a conjunction of one. -/
theorem isConjoined_of_single (h : e.conjuncts = [e]) : e.IsConjoined := by
  intro hplain part hpart
  rw [h, List.mem_singleton] at hpart
  rw [hpart]
  exact hplain

theorem IsLink.isConjoined (h : IsLink names e) : e.IsConjoined := by
  cases h with
  | keys a b _ _ => exact isConjoined_of_single (conjuncts_equals _ _)
  | polymorphic column field collection key _ _ =>
    intro _ part hpart
    rw [refersTo, conjuncts_both, conjuncts_equals, conjuncts_equals] at hpart
    rcases List.mem_pair.mp hpart with rfl | rfl <;> rfl

theorem IsCondition.isConjoined (h : IsCondition names e) : e.IsConjoined := by
  induction h with
  | predicate _ he => exact isConjoined_of_single he.conjuncts
  | never names => exact isConjoined_of_single (conjuncts_equals _ _)
  | both _ _ hl hr ihl ihr =>
    intro _ part hpart
    rw [conjuncts_both, List.mem_append] at hpart
    exact hpart.elim (ihl hl part) (ihr hr part)
  | either _ _ _ _ => exact fun hplain => absurd hplain Bool.noConfusion
  | paren _ _ | existential _ _ _ _ _ _ _ => exact isConjoined_of_single rfl

theorem IsRestriction.isConjoined (h : IsRestriction e) : e.IsConjoined := by
  rcases h with ⟨names, h⟩ | ⟨names, h⟩
  · exact h.isConjoined
  · exact h.isConjoined

/-- The conditions in an expression are those in its predicates. -/
theorem conditions_predicates (e : Expr) :
    e.predicates.flatMap Expr.conditions = e.conditions := by
  induction e using Expr.predicates.induct with
  | case1 left right ihl ihr => simp [Expr.predicates, Expr.conditions, ihl, ihr]
  | case2 left right ihl ihr => simp [Expr.predicates, Expr.conditions, ihl, ihr]
  | case3 inner ih => simp [Expr.predicates, Expr.conditions, ih]
  | case4 e hand hor hparen =>
    rw [Expr.predicates, List.flatMap_singleton]
    · exact hand
    · exact hor
    · exact hparen

theorem conditions_subset_of_join {joins : List Join} {join : Join} (h : join ∈ joins) :
    join.condition.conditions ⊆ joinsConditions joins := by
  induction joins with
  | nil => cases h
  | cons first rest ih =>
    obtain ⟨target, condition⟩ := first
    rw [joinsConditions]
    rcases List.mem_cons.mp h with rfl | h
    · exact fun inner hinner => List.mem_cons_of_mem _ (List.mem_append_left _ hinner)
    · exact fun inner hinner => List.mem_cons_of_mem _ (List.mem_append_right _ (ih h hinner))

/-- The conditions in a part of a statement are among those of the statement. -/
theorem conditions_subset_of_mem_parts {q : Query} (h : e ∈ q.parts) :
    e.conditions ⊆ q.conditions := by
  obtain ⟨items, source, joins, condition, groups, orders, window⟩ := q
  intro inner hinner
  simp only [Query.parts, List.mem_append, List.mem_map, List.mem_flatMap] at h
  simp only [Query.conditions, itemsConditions_eq, exprsConditions_eq, ordersConditions_eq,
    List.mem_append, List.mem_flatMap]
  rcases h with (((⟨item, hitem, rfl⟩ | ⟨join, hjoin, rfl⟩) | ⟨whole, hwhole, he⟩) | he) |
    ⟨o, ho, rfl⟩
  · exact .inl (.inl (.inr ⟨item, hitem, hinner⟩))
  · exact .inl (.inl (.inl (.inl (conditions_subset_of_join hjoin hinner))))
  · rw [Option.mem_toList.mp hwhole, rowConditions, ← conditions_predicates whole]
    exact .inl (.inl (.inl (.inr (List.mem_cons_of_mem _ (List.mem_flatMap.mpr ⟨e, he, hinner⟩)))))
  · exact .inl (.inr ⟨e, he, hinner⟩)
  · exact .inr ⟨o, ho, hinner⟩

end Conjunctions

/-! ## Lookups in shapes -/

section Shapes

variable {names : List String} {column e : Expr}

theorem exprsLookups_eq (es : List Expr) :
    exprsLookups es = es.flatMap Expr.lookups := by
  induction es with
  | nil => rw [exprsLookups, List.flatMap_nil]
  | cons e rest ih => rw [exprsLookups, ih, List.flatMap_cons]

theorem lookups_of (table name : String) : (Expr.of table name).lookups = [] := by
  rw [Expr.of, Expr.lookups]

theorem lookups_countRows : Expr.countRows.lookups = [] := by
  simp [Expr.countRows, Expr.count, Expr.apply]

theorem lookups_equals (left right : Expr) :
    (Expr.equals left right).lookups = left.lookups ++ right.lookups := by
  rw [Expr.equals, Expr.lookups]

theorem lookups_refersTo (table discriminator field collection : String) (key : Expr) :
    (refersTo table discriminator field collection key).lookups = key.lookups := by
  simp [refersTo, Expr.both, Expr.equals, Expr.string, Expr.of]

theorem IsLink.lookups (h : IsLink names e) : e.lookups = [] := by
  cases h with
  | keys a b _ _ => rw [lookups_equals, lookups_of, lookups_of, List.append_nil]
  | polymorphic column field collection key _ _ => rw [lookups_refersTo, lookups_of]

/-- What is made of a field looks nothing up. -/
theorem IsFunctionOf.lookups {table name : String} (h : IsFunctionOf (.of table name) e) :
    e.lookups = [] := by
  cases h with
  | itself => exact lookups_of table name
  | part d part kind =>
    cases d <;> cases kind <;>
      simp [Dialect.datePart, Expr.apply, Expr.string, Expr.int, Expr.of]
  | @length d e he =>
    cases d <;> cases he <;>
      simp [Expr.apply, Expr.of]

/-- A predicate on a column looks up what the column does. -/
theorem IsPredicate.lookups (h : IsPredicate column e) :
    e.lookups = column.lookups := by
  cases h with
  | null negated => simp
  | compare value _ => simp
  | compareLower value _ => simp [Expr.lower, Expr.apply]
  | oneOf values negated =>
    have hvalues : (values.map Expr.literal).flatMap Expr.lookups = [] := by
      simp [List.flatMap_eq_nil_iff]
    rw [Expr.lookups, exprsLookups_eq, hvalues, List.append_nil]
  | between low high negated => simp
  | @intersects d geojson boxes negated e he =>
    have hcall : e.lookups = column.lookups := by
      cases d <;> cases boxes <;> cases he <;>
        simp [Dialect.geometry, Expr.apply, Expr.string]
    cases negated with
    | false => exact hcall
    | true =>
      rw [Operator.negatedIf, if_pos rfl, Expr.lookups]
      exact hcall

/-- What a column stands in looks up what the column does. -/
theorem IsReading.lookups (h : IsReading column e) : e.lookups = column.lookups := by
  cases h with
  | itself => rfl
  | predicate hpredicate => exact hpredicate.lookups
  | aggregation a =>
    cases a <;> simp [Aggregation.apply, Expr.count, Expr.countDistinct, Expr.apply]

/-- The column of a path looks nothing up itself. -/
theorem Context.Resolves.lookups {c : Context} {collection : String} {hops : Hops}
    {path : List String} (h : c.Resolves collection hops path column) :
    column.lookups = [] := by
  cases h with
  | field _ _ hfunction => exact hfunction.lookups
  | count _ _ _ _ _ _ => rw [Expr.lookups]

/-- A condition looks up what its predicates do. -/
theorem lookups_predicates (e : Expr) : e.predicates.flatMap Expr.lookups = e.lookups := by
  induction e using Expr.predicates.induct with
  | case1 left right ihl ihr => simp [Expr.predicates, ihl, ihr]
  | case2 left right ihl ihr => simp [Expr.predicates, ihl, ihr]
  | case3 inner ih => simp [Expr.predicates, ih]
  | case4 e hand hor hparen =>
    rw [Expr.predicates, List.flatMap_singleton]
    · exact hand
    · exact hor
    · exact hparen

/-- Rows that count are compared with one row, not looked up. -/
theorem Counts.lookups_counted {owner table primary name : String} {along : Link} {r : Relation}
    {source : TableRef} (h : Counts owner table primary name along r e) :
    Query.lookups {
      items := [⟨.countRows, none⟩]
      source := some source
      condition := some e } = [] := by
  have hcondition : e.predicates.flatMap Expr.lookups = [] := by
    rw [lookups_predicates]
    cases h with
    | plain => rw [lookups_equals, lookups_of, lookups_of, List.append_nil]
    | polymorphic => rw [lookups_refersTo, lookups_of]
  simp [Query.lookups, Query.parts, lookups_countRows, hcondition]

/-- What is known of keys holds no statement and looks nothing up. -/
theorem IsReferring.selects_lookups_parts {owner : String} {along : Link} {r : Relation}
    {polymorphic : Bool} {known : Expr} (h : IsReferring owner along r polymorphic known)
    (he : e ∈ (r.keysWith [] known).parts) : e.selects = [] ∧ e.lookups = [] := by
  rcases h.parts he with rfl | hpredicate | ⟨column, -, hpredicate⟩
  · exact ⟨selects_of _ _, lookups_of _ _⟩
  · rw [hpredicate.selects, hpredicate.lookups]
    exact ⟨selects_of _ _, lookups_of _ _⟩
  · rw [hpredicate.selects, hpredicate.lookups]
    exact ⟨selects_of _ _, lookups_of _ _⟩

end Shapes

/-! ## Statements of keys -/

/-- A condition that the keys are known, which is no disjunction, starts the condition of their
statement. -/
theorem conjuncts_and? {known : Expr} (hplain : known.isDisjunction = false) (e? : Option Expr) :
    (known.and? e?).isDisjunction = false ∧
      ∃ rest, (known.and? e?).conjuncts = known.conjuncts ++ rest := by
  cases e? with
  | none => exact ⟨hplain, [], (List.append_nil _).symm⟩
  | some e =>
    refine ⟨rfl, e.guarded.conjuncts, ?_⟩
    rw [Expr.and?, conjuncts_both, Expr.guarded, hplain, if_neg Bool.false_ne_true]

/-- The keys of related rows, under a condition that starts with what is known of them. -/
theorem isKeysOf_keysWith {owner : String} {r : Relation} {discriminator : Option String}
    {joins : List Join} {known : Expr} {e? : Option Expr}
    (hplain : known.isDisjunction = false)
    (hknown : known.conjuncts = .isNull (.of r.collection r.field) true ::
      discriminator.toList.map fun column => .equals (.of r.collection column) (.string owner))
    (hconjoined : (known.and? e?).IsConjoined) :
    (r.keysWith joins (known.and? e?)).IsKeysOf owner r discriminator := by
  obtain ⟨hopen, rest, hrest⟩ := conjuncts_and? hplain e?
  exact ⟨rfl, rfl, ⟨_, rest, rfl, hknown ▸ hrest, hconjoined hopen⟩, rfl, rfl, rfl⟩

/-- A key of a table in scope that is looked for among the keys of related rows. -/
theorem isExistential_of_isReferring {s : Schema} {tables : List TableRef} {t : TableRef}
    {info : CollectionInfo} {owner segment : String} {r : Relation} {polymorphic negated : Bool}
    {known : Expr} {joins : List Join} {e? : Option Expr} (ht : t ∈ tables)
    (howner : t.table = owner) (hinfo : s.provider.collection owner = .ok (some info))
    (hreferring : IsReferring owner (link s.relations owner segment) r polymorphic known)
    (hconjoined : (known.and? e?).IsConjoined) :
    (Lookup.mk (if polymorphic then .cast (.of t.referenceName info.primary) .text
        else .of t.referenceName info.primary)
      (r.keysWith joins (known.and? e?)) negated).IsExistential s tables := by
  subst howner
  obtain ⟨collection, hcollection, rfl⟩ := Option.map_eq_some_iff.mp (Except.ok.inj hinfo)
  generalize hlink : link s.relations t.table segment = along at hreferring
  cases hreferring with
  | plain =>
    have hkeys : (r.keysWith joins ((Expr.isNull (.of r.collection r.field) true).and? e?)).IsKeysOf
        t.table r none := isKeysOf_keysWith rfl rfl hconjoined
    exact .plain negated ht hcollection hlink hkeys
  | @polymorphic _ column hdiscriminator =>
    have hknown : (Expr.both (.isNull (.of r.collection r.field) true)
        (.equals (.of r.collection column) (.string t.table))).conjuncts =
          .isNull (.of r.collection r.field) true ::
            (some column).toList.map fun column =>
              .equals (.of r.collection column) (.string t.table) := by
      rw [conjuncts_both, conjuncts_equals, Expr.conjuncts]
      · rfl
      · exact fun _ _ => Expr.noConfusion
    exact .polymorphic negated ht hcollection hlink hdiscriminator
      (isKeysOf_keysWith rfl hknown hconjoined)

/-! ## Lookups in statements -/

section Statements

variable {s : Schema} {options : Options} {names : Nat → String} {tables : List TableRef}
  {collection : String} {hops : Hops} {paths : List (List String)} {leaves : List Leaf} {e : Expr}

/-- Tables in scope stand for the places on record. -/
def Hops.AreInScope (tables : List TableRef) (collection : String) (hops : Hops) : Prop :=
  ∀ path place, IsPath path → hops.place? collection path = some place →
    ∃ t ∈ tables, t.referenceName = place.table ∧ t.table = place.collection

/-- A part of a statement asks for keys of rows of its tables only. -/
theorem lookups_of_makes (hscope : hops.AreInScope tables collection)
    (hconditions : ∀ inner ∈ e.conditions, IsRestriction inner)
    (h : (s.context options names).Makes collection paths leaves hops e) :
    ∀ m ∈ e.lookups, m.IsExistential s tables := by
  have hnone (hnone : e.lookups = []) : ∀ m ∈ e.lookups, m.IsExistential s tables := by
    rw [hnone]
    exact fun _ hm => (by cases hm)
  cases h with
  | rows => exact hnone lookups_countRows
  | keys _ =>
    exact hnone (by simp [Expr.countDistinct, Expr.of])
  | never => exact hnone (by simp [Expr.equals, Expr.int])
  | searched _ _ hpredicate => exact hnone (hpredicate.lookups.trans (lookups_of _ _))
  | column _ _ hresolves hreading =>
    exact hnone (hreading.lookups.trans hresolves.lookups)
  | joined _ _ _ _ hjoined => exact hnone (Context.isLink_of_joinTarget hjoined).lookups
  | @related _ _ _ _ parents key owner table primary quantifier f along r polymorphic known scope
      e? info _ hparents _ hasked hreferring _ hinfo hprimary _ _ _ _ =>
    have hsubject : (if polymorphic then (Expr.of table primary).cast .text
        else .of table primary).lookups = [] := by
      cases polymorphic <;> simp [Expr.of]
    rw [Expr.lookups, hsubject, List.nil_append]
    intro m hm
    rw [List.mem_singleton.mp hm]
    obtain ⟨path, place, hpath, hplace, hcollection, rfl⟩ := hasked.place? hparents
    obtain ⟨t, ht, hname, htable⟩ := hscope path place hpath hplace
    obtain ⟨segment, rfl, -⟩ := hasked.link_eq
    have hcondition : IsRestriction (known.and? e?) := hconditions _ (by
      rw [Expr.conditions]
      exact List.mem_append_right _ (mem_conditions rfl))
    rw [← hname, ← hprimary]
    exact isExistential_of_isReferring ht (htable.trans hcollection) hinfo hreferring
      hcondition.isConjoined

/-- So does every `SELECT` in such a part. -/
theorem lookups_of_selects
    (hconditions : ∀ inner ∈ e.conditions, IsRestriction inner)
    (h : (s.context options names).Makes collection paths leaves hops e) :
    ∀ select ∈ e.selects, ∀ m ∈ select.lookups, m.IsExistential s select.tables := by
  induction h with
  | rows =>
    rw [selects_countRows]
    exact fun _ hnone => (by cases hnone)
  | keys hinfo =>
    intro select hselect
    simp [Expr.countDistinct, Expr.of, Expr.selects, exprsSelects] at hselect
  | never =>
    intro select hselect
    simp [Expr.equals, Expr.int, Expr.selects] at hselect
  | searched hfields hf hpredicate =>
    rw [hpredicate.selects, selects_of]
    exact fun _ hnone => (by cases hnone)
  | column hmem hpath hresolves hreading =>
    intro select hselect
    rw [hreading.selects] at hselect
    cases hresolves with
    | field hplace hf hfunction =>
      rw [hfunction.selects] at hselect
      cases hselect
    | count hplace hfunction hf hinfo hprimary hcounts =>
      -- the rows that count are compared with one row
      rw [selects_counted hcounts.selects, List.mem_singleton] at hselect
      rw [hselect]
      exact fun m hm => absurd hm (by rw [hcounts.lookups_counted]; exact List.not_mem_nil)
  | joined hmem halong hplace hfound hjoined =>
    rw [(Context.isLink_of_joinTarget hjoined).selects]
    exact fun _ hnone => (by cases hnone)
  | @related collection paths leaves hops parents key owner table primary quantifier f along r
      polymorphic known scope e? info hleaf hparents hf hasked hreferring hknown hinfo hprimary
      hjoins hinner hends hparts ih =>
    intro select hselect
    have hsubject : (if polymorphic then (Expr.of table primary).cast .text
        else .of table primary).selects = [] := by
      cases polymorphic <;> simp [Expr.of, Expr.selects]
    rw [Expr.selects, hsubject, List.nil_append, Query.selects_parts, List.mem_cons,
      List.mem_flatMap] at hselect
    have hinside : ∀ inner ∈ (r.keysWith scope.query.joins (known.and? e?)).conditions,
        IsRestriction inner := fun inner hmem => hconditions inner (by
      rw [Expr.conditions]
      exact List.mem_append_right _ hmem)
    have hwith : (s.context options names).JoinsAlong true r.collection
        ((s.context options names).filterPaths r.collection [] f)
        ⟨r.keysWith scope.query.joins (known.and? e?), scope.hops⟩ := hjoins
    rcases hselect with rfl | ⟨part, hpart, hselect⟩
    · intro m hm
      obtain ⟨part, hpart, hm⟩ := List.mem_flatMap.mp hm
      by_cases hold : part ∈ (r.keysWith [] known).parts
      · rw [(hreferring.selects_lookups_parts hold).2] at hm
        cases hm
      · exact lookups_of_makes (hwith.inScope rfl)
          (fun inner hmem => hinside inner (conditions_subset_of_mem_parts hpart hmem))
          (hparts part hpart hold) m hm
    · by_cases hold : part ∈ (r.keysWith [] known).parts
      · rw [(hreferring.selects_lookups_parts hold).1] at hselect
        cases hselect
      · exact ih part hpart hold
          (fun inner hmem => hinside inner (conditions_subset_of_mem_parts hpart hmem))
          select hselect

end Statements

/-! ## Compiled statements -/

/-- Wherever a compiled statement looks a value up among those of another statement, at any depth,
that value is the primary key of a table of the `SELECT` around it, and the other statement is that
of the keys which the rows of a link of that table refer to. -/
theorem lookups_of_compile {s : Schema} {options : Options} {letters : Alias.Letters}
    {collection : String} {r : Request} {q : Query}
    (h : (s.compiler options letters).compile collection r = .ok q) :
    ∀ select ∈ q.selects, ∀ lookup ∈ select.lookups, lookup.IsExistential s select.tables := by
  obtain ⟨hops, hjoins, hmade, -, -⟩ := made_of_compile h
  have hconditions (part : Expr) (hpart : part ∈ q.parts) :
      ∀ inner ∈ part.conditions, IsRestriction inner := fun inner hinner =>
    (isStatement_of_compile h).isRestriction (conditions_subset_of_mem_parts hpart hinner)
  intro select hselect lookup hlookup
  rw [Query.selects_parts, List.mem_cons, List.mem_flatMap] at hselect
  rcases hselect with rfl | ⟨part, hpart, hselect⟩
  · obtain ⟨part, hpart, hlookup⟩ := List.mem_flatMap.mp hlookup
    by_cases hold : part ∈ (Compiler.target collection r).parts
    · rw [Compiler.parts_target hold, Expr.lookups] at hlookup
      cases hlookup
    · exact lookups_of_makes (hjoins.inScope (isStatement_of_compile h).source)
        (hconditions part hpart) (hmade.parts part hpart hold) lookup hlookup
  · by_cases hold : part ∈ (Compiler.target collection r).parts
    · rw [Compiler.parts_target hold, Expr.selects] at hselect
      cases hselect
    · exact lookups_of_selects (hconditions part hpart) (hmade.parts part hpart hold) select
        hselect lookup hlookup

/-- A filter on comments: their article has no comment without a body. -/
def Filter.ofFilledArticle : Filter :=
  .of (.field "article" (.nested (.of (.field "comments"
    (.quantified .none (.of (.field "body" (.compare [⟨.null false, none⟩]))))))))

/-- A lookup at the root, and one on a joined table in the statement that it looks in. -/
theorem lookups_of_compile_blog :
    ∃ q, (Schema.blog.compiler {} fun _ => 0).compile "articles"
        { filter := some (.of (.field "comments" (.quantified .some .ofFilledArticle))) } = .ok q ∧
      q.selects.map (fun select => select.lookups.length) = [1, 1, 0] ∧
      ∀ select ∈ q.selects, ∀ lookup ∈ select.lookups,
        lookup.IsExistential Schema.blog select.tables := by
  obtain ⟨q, hq, hcounts⟩ : ∃ q, (Schema.blog.compiler {} fun _ => 0).compile "articles"
        { filter := some (.of (.field "comments" (.quantified .some .ofFilledArticle))) } = .ok q ∧
      q.selects.map (fun select => select.lookups.length) = [1, 1, 0] :=
    Compiler.exists_compile_with (by decide +kernel)
  exact ⟨q, hq, hcounts, lookups_of_compile hq⟩

end JsonSql
