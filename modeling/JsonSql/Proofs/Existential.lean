import JsonSql.Proofs.Compiled

set_option autoImplicit false

/-!
# Parts of existential conditions

An existential condition asks whether the key of a row is among the keys of related rows.  The
statement of these keys selects one column, joins what the filter on the related rows asks about,
and is restricted by a condition that the keys are known (`IsReferring`) and by that of the filter.
-/

namespace JsonSql

open JsonSql.Sql

/-- The keys of related rows, with joins and under a condition. -/
def Relation.keysWith (r : Relation) (joins : List Join) (condition : Expr) : Query where
  items := [⟨.of r.collection r.field, none⟩]
  source := some ⟨r.collection, none⟩
  joins
  condition := some condition

/-- The condition that a related row refers to a row of a collection at all: its key is known and,
if it is polymorphic, is one of that collection. -/
inductive IsReferring (collection : String) : Link → Relation → Bool → Expr → Prop
  | plain (r : Relation) :
      IsReferring collection (.oneToMany r) r false (.isNull (.of r.collection r.field) true)
  | polymorphic (r : Relation) {column : String} : r.info.discriminator = some column →
      IsReferring collection (.oneToAny r) r true
        (.both (.isNull (.of r.collection r.field) true)
          (.equals (.of r.collection column) (.string collection)))

theorem IsReferring.isCondition {collection : String} {link : Link} {r : Relation}
    {polymorphic : Bool} {known : Expr} (h : IsReferring collection link r polymorphic known) :
    IsCondition [r.collection] known := by
  have hmem : r.collection ∈ [r.collection] := List.mem_cons_self
  have hknown : IsCondition [r.collection] (.isNull (.of r.collection r.field) true) :=
    .predicate (.plain _ hmem) (.null true)
  cases h with
  | plain r => exact hknown
  | @polymorphic r column hcolumn =>
    exact .both hknown (.predicate (.plain column hmem) (.compare (.string collection) rfl)) rfl rfl

/-- The keys of related rows are a statement on their collection. -/
theorem IsReferring.isStatement {collection : String} {link : Link} {r : Relation}
    {polymorphic : Bool} {known : Expr} (h : IsReferring collection link r polymorphic known) :
    IsStatement r.collection (r.keysWith [] known) := by
  refine ⟨rfl, trivial, ?_, ?_, ?_, ?_⟩
  · intro item hitem
    rw [List.mem_singleton.mp hitem]
    exact .column (.plain _ List.mem_cons_self)
  · intro e he
    rw [← Option.some.inj he]
    exact h.isCondition
  · intro e he
    cases he
  · intro o ho
    cases ho

theorem IsReferring.relation?_eq {collection : String} {link : Link} {r : Relation}
    {polymorphic : Bool} {known : Expr} (h : IsReferring collection link r polymorphic known) :
    link.relation? = some r := by
  cases h <;> rfl

/-- A condition together with another one, if there is one. -/
def Sql.Expr.and? (known : Expr) : Option Expr → Expr
  | none => known
  | some e => .both known.guarded e.guarded

namespace Context

variable {c : Context} {collection : String} {k k' : Nat}

theorem isReferring_of_relatedKeys {link : Link} {r : Relation} {q : Query} {polymorphic : Bool}
    (h : (relatedKeys collection link).Gives k (r, q, polymorphic) k') :
    ∃ known, IsReferring collection link r polymorphic known ∧ q = r.keysWith [] known := by
  cases link with
  | oneToMany s =>
    obtain ⟨hresult, -⟩ := Compile.gives_pure.mp h
    cases hresult
    exact ⟨_, .plain r, rfl⟩
  | oneToAny s =>
    unfold relatedKeys at h
    dsimp only at h
    split at h
    · exact absurd h Compile.not_gives_throw
    · next column hcolumn =>
      obtain ⟨hresult, -⟩ := Compile.gives_pure.mp h
      cases hresult
      exact ⟨_, .polymorphic r hcolumn, rfl⟩
  | none => exact absurd h Compile.not_gives_throw
  | manyToOne s => exact absurd h Compile.not_gives_throw
  | manyToAny s scope => exact absurd h Compile.not_gives_throw

/-- An existential condition is a key among those of the related rows that meet the filter. -/
theorem existential_eq {table : String} {link : Link} {quantifier : Quantifier} {f : Filter}
    {condition : String → Hops → Compile (Option Expr)} {e : Expr}
    (h : (c.existential collection table link quantifier f condition).Gives k e k') :
    ∃ r polymorphic known scope several e? primary k₁,
      IsReferring collection link r polymorphic known ∧
      (∃ info, c.provider.collection r.collection = .ok (some info)) ∧
      (c.joinFilter true r.collection [] { query := r.keysWith [] known } f).Gives k
        (scope, several) k₁ ∧
      (condition r.collection scope.hops).Gives k₁ e? k' ∧
      (c.primary collection).Gives k' primary k' ∧
      e = .inQuery (if polymorphic then .cast (.of table primary) .text else .of table primary)
        (r.keysWith scope.query.joins (known.and? e?)) (quantifier = .none) := by
  obtain ⟨r, keys, polymorphic, scope, several, primary, k₁, hkeys, hcollection, hfilter,
    hprimary, rfl⟩ := existential_gives h
  obtain ⟨known, hreferring, rfl⟩ := isReferring_of_relatedKeys hkeys
  obtain ⟨scope₁, k₂, e?, hjoin, he, -, hquery⟩ := addFilter_gives hfilter
  obtain ⟨-, -, -, hk⟩ := primary_gives.mp hprimary
  subst hk
  refine ⟨r, polymorphic, known, scope₁, several, e?, primary, k₂, hreferring, hcollection, hjoin,
    he, hprimary, ?_⟩
  have hsame : scope₁.query = r.keysWith scope₁.query.joins known :=
    sameButJoins_of_joinFilter hjoin (sameButJoins_refl (r.keysWith [] known))
  have hfinal : scope.query = r.keysWith scope₁.query.joins (known.and? e?) := by
    rw [hquery, hsame]
    cases e? <;> rfl
  rw [hfinal]

/-- Where a filter on related rows is asked: at the root, of the link of the key as it is written,
or below a join, of the link of the key without blanks around it. -/
structure IsAsked (c : Context) (hops : Hops) (collection : String) (parents : List String)
    (key : String) (owner table : String) (link : Link) : Prop where
  several : link.isToMany = true
  place : (c.startsExistential collection parents key = true ∧ owner = collection ∧
      table = collection ∧ link = c.link collection key) ∨
    (c.startsExistential collection parents key = false ∧
      ∃ hop, hops.get? parents = some hop ∧ owner = hop.collection ∧ table = hop.name ∧
        link = c.link hop.collection (Text.trim key))

theorem quantifiedLink_eq_ok {hops : Hops} {parents : List String} {segment : String} {hop : Hop}
    {link : Link} (h : c.quantifiedLink hops parents segment = .ok (hop, link)) :
    hops.get? parents = some hop ∧ link = c.link hop.collection segment ∧
      link.isToMany = true := by
  unfold quantifiedLink at h
  dsimp only at h
  split at h
  · cases h
  · next found hfound =>
    split at h
    · next hmany =>
      cases h
      exact ⟨hfound, rfl, hmany⟩
    · cases h

/-- A quantified key is an existential condition. -/
theorem quantified_gives {hops : Hops} {parents : List String} {key : String}
    {quantifier : Quantifier} {f : Filter} {e? : Option Expr}
    (h : (c.fieldCondition? hops collection parents key (.quantified quantifier f)).Gives k
      e? k') :
    ∃ owner table link e, e? = some e ∧
      c.IsAsked hops collection parents key owner table link ∧
      (c.existential owner table link quantifier f
        fun related hops => c.condition? hops related [] f).Gives k e k' := by
  rw [fieldCondition?] at h
  split at h
  · next hstart =>
    rw [Compile.gives_map] at h
    obtain ⟨e, he, rfl⟩ := h
    have hmany := (Bool.and_eq_true_iff.mp hstart).2
    exact ⟨collection, collection, c.link collection key, e, rfl,
      ⟨hmany, .inl ⟨hstart, rfl, rfl, rfl⟩⟩, he⟩
  · next hstart =>
    simp only [Compile.gives_bind, Compile.gives_lift, Compile.gives_map] at h
    obtain ⟨⟨hop, link⟩, k₁, ⟨hlink, rfl⟩, e, he, rfl⟩ := h
    dsimp only at he
    obtain ⟨hfound, hsame, hmany⟩ := quantifiedLink_eq_ok hlink
    refine ⟨hop.collection, hop.name, link, e, rfl, ⟨hmany, .inr ?_⟩, he⟩
    exact ⟨by simpa using hstart, hop, hfound, rfl, rfl, hsame⟩

end Context

end JsonSql
