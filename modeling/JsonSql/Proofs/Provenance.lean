import JsonSql.Proofs.Concealed
import JsonSql.Proofs.Parts
import JsonSql.Proofs.Reached
import JsonSql.Proofs.Unambiguous

set_option autoImplicit false

/-!
# Where the parts of a statement come from

Each part of a compiled statement is the column of a path that is walked, a predicate or an
aggregation of one, the condition of a join on the way, the condition of rows that are related, or
one of a few parts that name no path (`Context.Makes`).  With the record of its joins this is all
that is to be known of a statement: what every part keeps, whatever it comes from, holds of whole
statements at any depth by induction on this relation, without another look at the compilation.
-/

namespace JsonSql

open JsonSql.Calendar
open JsonSql.Sql

/-! ## Columns -/

/-- A field, or a part or the length of its value. -/
inductive IsFunctionOf (column : Expr) : Expr → Prop
  | itself : IsFunctionOf column column
  | part (d : Dialect) (part : DatePart) (kind : DateKind) :
      IsFunctionOf column (d.datePart part kind column)
  | length {d : Dialect} {e : Expr} : d.jsonArrayLength? column = some e → IsFunctionOf column e

/-- The condition under which a row of a link to a row of the table counts. -/
inductive Counts (owner table primary name : String) : Link → Relation → Expr → Prop
  | plain (r : Relation) : Counts owner table primary name (.oneToMany r) r
      (.equals (.of name r.field) (.of table primary))
  | polymorphic {r : Relation} {column : String} : r.info.discriminator = some column →
      Counts owner table primary name (.oneToAny r) r
        (refersTo name column r.field owner (.of table primary))

/-- Rows that count are those of the link. -/
theorem Counts.relation? {owner table primary name : String} {link : Link} {r : Relation}
    {e : Expr} (h : Counts owner table primary name link r e) : link.relation? = some r := by
  cases h <;> rfl

theorem Counts.admitted? {owner table primary name : String} {link : Link} {r : Relation}
    {e : Expr} (h : Counts owner table primary name link r e) :
    link.admitted? = some r.collection := by
  cases h <;> rfl

theorem IsReferring.admitted? {owner : String} {link : Link} {r : Relation} {polymorphic : Bool}
    {known : Expr} (h : IsReferring owner link r polymorphic known) :
    link.admitted? = some r.collection := by
  cases h <;> rfl

/-- What a column stands in: by itself, in a predicate, or in an aggregation. -/
inductive IsReading (column : Expr) : Expr → Prop
  | itself : IsReading column column
  | predicate {e : Expr} : IsPredicate column e → IsReading column e
  | aggregation (a : Aggregation) : IsReading column (a.apply column)

namespace Context

variable {c : Context} {collection : String} {hops hops' : Hops} {k k' : Nat}

/-- The expression that a path resolves to: a field of the place before its last segment, a function
of the field, or the number of rows of its link. -/
inductive Resolves (c : Context) (collection : String) (hops : Hops) : List String → Expr → Prop
  | field {before : List String} {last : String} {place : Place} {f : Field} {e : Expr} :
      hops.place? collection before = some place →
      c.provider.field place.collection (splitFunction last).2 = .ok (some f) →
      IsFunctionOf (.of place.table (splitFunction last).2) e →
      Resolves c collection hops (before ++ [last]) e
  | count {before : List String} {last function primary name : String} {place : Place} {f : Field}
      {r : Relation} {condition : Expr} {info : CollectionInfo} :
      hops.place? collection before = some place →
      (splitFunction last).1 = some function →
      c.provider.field place.collection (splitFunction last).2 = .ok (some f) →
      c.provider.collection place.collection = .ok (some info) → info.primary = primary →
      Counts place.collection place.table primary name
        (c.link place.collection (splitFunction last).2) r condition →
      Resolves c collection hops (before ++ [last]) (.subquery {
        items := [⟨.countRows, none⟩]
        source := some ⟨r.collection, some name⟩
        condition := some condition })

/-- The parents of a path are on record, and lead to a collection that is known to exist. -/
def Ends (c : Context) (collection : String) (hops : Hops) (path : List String) : Prop :=
  ∃ place, hops.place? collection path.dropLast = some place ∧ c.IsKnown place.collection

theorem Resolves.mono {path : List String} {e : Expr} (hkeeps : Keeps hops hops')
    (h : c.Resolves collection hops path e) : c.Resolves collection hops' path e := by
  cases h with
  | field hplace hf he => exact .field (Hops.place?_mono hkeeps hplace) hf he
  | count hplace hfunction hf hinfo hprimary hcounts =>
    exact .count (Hops.place?_mono hkeeps hplace) hfunction hf hinfo hprimary hcounts

theorem Ends.mono {path : List String} (hkeeps : Keeps hops hops')
    (h : c.Ends collection hops path) : c.Ends collection hops' path := by
  obtain ⟨place, hplace, hknown⟩ := h
  exact ⟨place, Hops.place?_mono hkeeps hplace, hknown⟩

theorem IsAsked.mono {parents : List String} {key owner table : String} {link : Link}
    (hkeeps : Keeps hops hops') (h : c.IsAsked hops collection parents key owner table link) :
    c.IsAsked hops' collection parents key owner table link :=
  ⟨h.several, h.place.imp id fun ⟨hstart, hop, hfound, hrest⟩ =>
    ⟨hstart, hop, hkeeps _ _ hfound, hrest⟩⟩

theorem resolves_of_column {path : List String} {column : Column}
    (h : (c.column hops collection path).Gives k column k') :
    c.Resolves collection hops path column.expr ∧ c.Ends collection hops path := by
  obtain ⟨last, place, f, hlast, hplace, hf, hcolumn⟩ := column_gives h
  have hrecord := Hops.place?_of_placeOf hplace
  obtain ⟨before, rfl⟩ : ∃ before, path = before ++ [last] :=
    ⟨path.dropLast, (List.dropLast_append_getLast? last hlast).symm⟩
  rw [List.dropLast_concat] at hrecord
  refine ⟨?_, place, by rwa [List.dropLast_concat], .field hf⟩
  rcases hcolumn with ⟨-, -, -, rfl⟩ | ⟨function, e, hfunction, he, rfl⟩
  · exact .field hrecord hf .itself
  · rcases applyFunction_cases he with ⟨part, kind, -, -, rfl, -⟩ | ⟨-, -, hlength, -⟩ |
      ⟨-, -, hcount⟩
    · exact .field hrecord hf (.part _ part kind)
    · exact .field hrecord hf (.length hlength)
    · obtain ⟨r, primary, condition, hprimary, -, rfl, -, hlink⟩ := countRows?_gives hcount
      obtain ⟨info, hinfo, rfl, -⟩ := primary_gives.mp hprimary
      refine .count hrecord hfunction hf hinfo rfl ?_
      rcases hlink with ⟨hlink, rfl⟩ | ⟨column, hlink, hdiscriminator, rfl⟩
      · rw [hlink]
        exact .plain r
      · rw [hlink]
        exact .polymorphic hdiscriminator

/-! ## Parts -/

/-- Where a part of a statement on a collection comes from, if the statement walks paths and asks
leaves of a filter. -/
inductive Makes (c : Context) :
    String → List (List String) → List Leaf → Hops → Expr → Prop
  /-- the number of rows -/
  | rows {collection : String} {paths : List (List String)} {leaves : List Leaf} {hops : Hops} :
      Makes c collection paths leaves hops .countRows
  /-- the number of different keys -/
  | keys {collection : String} {paths : List (List String)} {leaves : List Leaf} {hops : Hops}
      {info : CollectionInfo} : c.provider.collection collection = .ok (some info) →
      Makes c collection paths leaves hops (.countDistinct (.of collection info.primary))
  /-- a search that finds nothing -/
  | never {collection : String} {paths : List (List String)} {leaves : List Leaf} {hops : Hops} :
      Makes c collection paths leaves hops (.equals (.int 1) (.int 0))
  /-- a field that is searched -/
  | searched {collection : String} {paths : List (List String)} {leaves : List Leaf} {hops : Hops}
      {fields : List Field} {f : Field} {e : Expr} :
      c.provider.fields collection = .ok fields → f ∈ fields →
      IsPredicate (.of collection f.name) e → Makes c collection paths leaves hops e
  /-- the column of a path -/
  | column {collection : String} {paths : List (List String)} {leaves : List Leaf} {hops : Hops}
      {path : List String} {column e : Expr} : path ∈ paths → IsPath path →
      c.Resolves collection hops path column → IsReading column e →
      Makes c collection paths leaves hops e
  /-- the condition of a join -/
  | joined {collection : String} {paths : List (List String)} {leaves : List Leaf} {hops : Hops}
      {path before : List String} {segment name target : String} {place : Place} {e : Expr}
      {k k' : Nat} : path ∈ paths → before ++ [segment] <+: path.dropLast →
      hops.place? collection before = some place →
      hops.get? (before ++ [segment]) = some ⟨name, target⟩ →
      (c.joinTarget place segment name (c.link place.collection segment)).Gives k (target, e) k' →
      Makes c collection paths leaves hops e
  /-- the keys of related rows, which are a statement of their own -/
  | related {collection : String} {paths : List (List String)} {leaves : List Leaf} {hops : Hops}
      {parents : List String} {key owner table primary : String} {quantifier : Quantifier}
      {f : Filter} {link : Link} {r : Relation} {polymorphic : Bool} {known : Expr} {scope : Scope}
      {e? : Option Expr} {info : CollectionInfo} :
      .related parents key quantifier f ∈ leaves → IsPath parents → f.IsUnfolded →
      c.IsAsked hops collection parents key owner table link →
      IsReferring owner link r polymorphic known →
      c.IsKnown r.collection →
      c.provider.collection owner = .ok (some info) → info.primary = primary →
      c.JoinsAlong true r.collection (c.filterPaths r.collection [] f) scope →
      scope.hops.Charted c r.collection →
      (∀ path ∈ c.filterPaths r.collection [] f, c.Ends r.collection scope.hops path) →
      (∀ e ∈ (r.keysWith scope.query.joins (known.and? e?)).parts,
        e ∉ (r.keysWith [] known).parts →
        Makes c r.collection (c.filterPaths r.collection [] f) (c.leaves r.collection [] f)
          scope.hops e) →
      Makes c collection paths leaves hops (.inQuery
        (if polymorphic then .cast (.of table primary) .text else .of table primary)
        (r.keysWith scope.query.joins (known.and? e?)) (quantifier = .none))

/-- More paths, more leaves and more joins on record do not count. -/
theorem Makes.mono {paths more : List (List String)} {leaves others : List Leaf} {e : Expr}
    (h : c.Makes collection paths leaves hops e) (hpaths : paths ⊆ more) (hleaves : leaves ⊆ others)
    (hkeeps : Keeps hops hops') : c.Makes collection more others hops' e := by
  cases h with
  | rows => exact .rows
  | keys hinfo => exact .keys hinfo
  | never => exact .never
  | searched hfields hf he => exact .searched hfields hf he
  | column hmem hpath hresolves he =>
    exact .column (hpaths hmem) hpath (hresolves.mono hkeeps) he
  | joined hmem halong hplace hfound hjoined =>
    exact .joined (hpaths hmem) halong (Hops.place?_mono hkeeps hplace) (hkeeps _ _ hfound) hjoined
  | related hmem hparents hf hasked hreferring hknown hinfo hprimary hjoins hcharted hends hparts =>
    exact .related (hleaves hmem) hparents hf (hasked.mono hkeeps) hreferring hknown hinfo hprimary
      hjoins hcharted hends hparts

end Context

/-! ## Parts that are added -/

section Parts

variable {q : Query} {e : Expr}

theorem mem_parts_addItem {item : Item} (h : e ∈ (q.addItem item).parts) :
    e ∈ q.parts ∨ e = item.expr := by
  simp only [Query.parts, Query.addItem, List.map_append, List.map_singleton, List.mem_append,
    List.mem_singleton] at h ⊢
  grind

theorem mem_parts_addGroup {group : Expr} (h : e ∈ (q.addGroup group).parts) :
    e ∈ q.parts ∨ e = group := by
  simp only [Query.parts, Query.addGroup, List.mem_append, List.mem_singleton] at h ⊢
  grind

theorem mem_parts_addOrder {o : OrderItem} (h : e ∈ (q.addOrder o).parts) :
    e ∈ q.parts ∨ e = o.expr := by
  simp only [Query.parts, Query.addOrder, List.map_append, List.map_singleton, List.mem_append,
    List.mem_singleton] at h ⊢
  grind

theorem mem_parts_addJoin {target : TableRef} {condition : Expr}
    (h : e ∈ (q.addJoin target condition).parts) : e ∈ q.parts ∨ e = condition := by
  simp only [Query.parts, Query.addJoin, List.map_append, List.map_singleton, List.mem_append,
    List.mem_singleton] at h ⊢
  grind

theorem mem_parts_addCondition {condition : Expr} (h : e ∈ (q.addCondition condition).parts) :
    e ∈ q.parts ∨ e ∈ condition.predicates := by
  simp only [Query.parts, predicates_addCondition, List.mem_append] at h ⊢
  have hrest : (q.addCondition condition).items = q.items ∧
      (q.addCondition condition).joins = q.joins ∧ (q.addCondition condition).groups = q.groups ∧
      (q.addCondition condition).orders = q.orders := ⟨rfl, rfl, rfl, rfl⟩
  grind

theorem mem_parts_addItems {items : List Item} (h : e ∈ (items.foldl Query.addItem q).parts) :
    e ∈ q.parts ∨ e ∈ items.map Item.expr := by
  rw [Context.foldl_addItem] at h
  simp only [Query.parts, List.map_append, List.mem_append] at h ⊢
  grind

end Parts

/-- The keys of related rows name the key and, if it is polymorphic, its discriminator. -/
theorem IsReferring.parts {owner : String} {link : Link} {r : Relation} {polymorphic : Bool}
    {known e : Expr} (h : IsReferring owner link r polymorphic known)
    (he : e ∈ (r.keysWith [] known).parts) :
    e = .of r.collection r.field ∨ IsPredicate (.of r.collection r.field) e ∨
      ∃ column, r.info.discriminator = some column ∧ IsPredicate (.of r.collection column) e := by
  have hparts := parts_keysWith r [] known none
  rw [Expr.and?] at hparts
  rw [hparts, List.map_nil, Option.toList_none, List.flatMap_nil, List.nil_append, List.append_nil,
    List.mem_cons] at he
  have hnull : IsPredicate (.of r.collection r.field) (.isNull (.of r.collection r.field) true) :=
    .null true
  cases h with
  | plain =>
    rw [hnull.predicates, List.mem_singleton] at he
    rcases he with rfl | rfl
    · exact .inl rfl
    · exact .inr (.inl hnull)
  | @polymorphic r column hdiscriminator =>
    have hequals : IsPredicate (.of r.collection column)
        (.equals (.of r.collection column) (.string owner)) := .compare (.string owner) rfl
    rw [predicates_both, hnull.predicates, hequals.predicates, List.mem_append,
      List.mem_singleton, List.mem_singleton] at he
    rcases he with rfl | rfl | rfl
    · exact .inl rfl
    · exact .inr (.inl hnull)
    · exact .inr (.inr ⟨column, hdiscriminator, hequals⟩)

/-! ## Statements -/

/-- A statement whose parts, apart from those that it started with, come from paths that it walks
and leaves that it asks.  Some of the paths are resolved. -/
structure Scope.Made (c : Context) (collection : String) (base : List Expr)
    (paths ended : List (List String)) (leaves : List Leaf) (scope : Scope) : Prop where
  charted : scope.hops.Charted c collection
  ends : ∀ path ∈ ended, c.Ends collection scope.hops path
  parts : ∀ e ∈ scope.query.parts, e ∉ base → c.Makes collection paths leaves scope.hops e

namespace Scope.Made

variable {c : Context} {collection : String} {base : List Expr} {paths ended : List (List String)}
  {leaves : List Leaf} {scope scope' : Scope} {inner several : Bool} {k k' : Nat}

/-- A statement without joins starts with its own parts. -/
theorem start (q : Query) : Made c collection q.parts paths [] leaves { query := q } :=
  ⟨.empty, fun _ h => (by cases h), fun e he hnew => absurd he hnew⟩

theorem mono {more : List (List String)} {others : List Leaf}
    (h : Made c collection base paths ended leaves scope) (hpaths : paths ⊆ more)
    (hleaves : leaves ⊆ others) : Made c collection base more ended others scope :=
  ⟨h.charted, h.ends, fun e he hnew =>
    (h.parts e he hnew).mono hpaths hleaves fun _ _ hfound => hfound⟩

/-- Parts that are added have to come from somewhere too. -/
theorem replace {q : Query} (h : Made c collection base paths ended leaves scope)
    (hparts : ∀ e ∈ q.parts, e ∈ scope.query.parts ∨
      c.Makes collection paths leaves scope.hops e) :
    Made c collection base paths ended leaves { scope with query := q } :=
  ⟨h.charted, h.ends, fun e he hnew => (hparts e he).elim (h.parts e · hnew) id⟩

/-- More paths are resolved. -/
theorem resolve {more : List (List String)} (h : Made c collection base paths ended leaves scope)
    (hends : ∀ path ∈ more, c.Ends collection scope.hops path) :
    Made c collection base paths (ended ++ more) leaves scope :=
  ⟨h.charted, fun path hpath => (List.mem_append.mp hpath).elim (h.ends path) (hends path), h.parts⟩

/-! ### Joins -/

theorem joinStep {path before : List String} {segment target : String} {place : Place}
    {condition : Expr} (hmem : path ∈ paths) (hpath : IsPath path)
    (h : Made c collection base paths ended leaves scope)
    (hstep : JoinStep c collection path scope k before segment place target condition scope' k') :
    Made c collection base paths ended leaves scope' := by
  have hkeeps : Context.Keeps scope.hops scope'.hops :=
    Context.keeps_of_joinStep (fun _ _ hfound => hfound) hstep
  refine ⟨h.charted.joinStep hpath hstep, fun other hother => (h.ends other hother).mono hkeeps, ?_⟩
  intro e he hnew
  rw [hstep.result] at he
  rcases mem_parts_addJoin he with hold | rfl
  · exact (h.parts e hold hnew).mono (List.Subset.refl _) (List.Subset.refl _) hkeeps
  · refine .joined hmem hstep.along (Hops.place?_mono hkeeps hstep.reached.place?) ?_ hstep.joined
    rw [hstep.result]
    exact Hops.get?_insert_self _ _ _

theorem joinPath {path : List String} (hmem : path ∈ paths) (hpath : IsPath path)
    (h : Made c collection base paths ended leaves scope)
    (hjoin : (c.joinPath inner collection scope path).Gives k (scope', several) k') :
    Made c collection base paths ended leaves scope' :=
  Context.joinPath_keeps (P := fun s _ => Made c collection base paths ended leaves s)
    (fun hmade => hmade.joinStep hmem hpath) h hjoin

theorem joinFilter {f : Filter} (hf : f.IsUnfolded)
    (hmem : c.filterPaths collection [] f ⊆ paths)
    (h : Made c collection base paths ended leaves scope)
    (hjoin : (c.joinFilter inner collection [] scope f).Gives k (scope', several) k') :
    Made c collection base paths ended leaves scope' :=
  Context.joinFilter_keeps (P := fun s _ => Made c collection base paths ended leaves s)
    (fun hpath hmade => hmade.joinStep (hmem hpath)
      (Context.isPath_of_mem_filterPaths isPath_nil hf _ hpath)) h hjoin

end Scope.Made

/-! ## Conditions -/

namespace Context

variable {c : Context} {collection : String} {hops : Hops} {k k' : Nat}

/-- Rows that refer back to the root are not compared. -/
theorem startsExistential_of_compared {parents : List String} {key : String}
    {comparisons : List Comparison} {e? : Option Expr}
    (h : (c.fieldCondition? hops collection parents key (.compare comparisons)).Gives k e? k') :
    c.startsExistential collection parents key = false := by
  rw [fieldCondition?] at h
  split at h
  · simp at h
  · next hstart => exact Bool.eq_false_iff.mpr hstart

/-- The path that is joined for a leaf ends at a collection that is known to exist. -/
theorem ends_of_asked {parents : List String} {key owner table : String} {link : Link}
    {info : CollectionInfo} (hasked : c.IsAsked hops collection parents key owner table link)
    (hinfo : c.provider.collection owner = .ok (some info))
    (hroot : c.IsKnown collection) (hstart : c.startsExistential collection parents key = false) :
    c.Ends collection hops (parents ++ [Text.trim key]) := by
  rw [Ends, List.dropLast_concat]
  rcases hasked.place with ⟨hexistential, -⟩ | ⟨-, hop, hfound, rfl, -, -⟩
  · rw [hstart] at hexistential
    cases hexistential
  · by_cases hnil : parents = []
    · exact ⟨.root collection, by rw [hnil, Hops.place?_nil], hroot⟩
    · exact ⟨hop.place, by rw [Hops.place?_of_ne_nil hnil, hfound, Option.map_some],
        .collection hinfo⟩

/-- What the leaves of a filter are made of, the filter is. -/
theorem makes_of_leavesGive {paths : List (List String)} {leaves : List Leaf} {f : Filter}
    {predicates : List Expr}
    (hmakes : ∀ leaf ∈ c.leaves collection [] f, ∀ (e? : Option Expr) (i i' : Nat),
      (c.leafCondition? hops collection leaf).Gives i e? i' →
      (∀ path ∈ c.leafPaths collection leaf, c.Ends collection hops path) ∧
        ∀ e ∈ e?.toList.flatMap Expr.predicates, c.Makes collection paths leaves hops e)
    (h : c.LeavesGive hops collection (c.leaves collection [] f) k predicates k') :
    (∀ path ∈ c.filterPaths collection [] f, c.Ends collection hops path) ∧
      ∀ e ∈ predicates, c.Makes collection paths leaves hops e := by
  refine ⟨fun path hpath => ?_, fun e he => ?_⟩
  · rw [filterPaths_eq, List.mem_flatMap] at hpath
    obtain ⟨leaf, hmem, hpath⟩ := hpath
    obtain ⟨e?, i, i', -, hgives⟩ := h.of_leaf hmem
    exact (hmakes leaf hmem e? i i' hgives).1 path hpath
  · obtain ⟨leaf, hmem, e?, i, i', -, -, hgives, hp⟩ := h.of_mem he
    exact (hmakes leaf hmem e? i i' hgives).2 e hp

/-- The statement of the keys of related rows is made of what the filter about them walks and asks,
if all that its leaves give is. -/
theorem makes_of_keysWith {r : Relation} {f : Filter} {known : Expr} {scope : Scope}
    {several : Bool} {inner? : Option Expr} {j : Nat} (hf : f.IsUnfolded)
    (hjoin : (c.joinFilter true r.collection [] { query := r.keysWith [] known } f).Gives k
      (scope, several) j)
    (hinner : (c.condition? scope.hops r.collection [] f).Gives j inner? k')
    (hmakes : ∀ leaf ∈ c.leaves r.collection [] f, ∀ (e? : Option Expr) (i i' : Nat),
      (c.leafCondition? scope.hops r.collection leaf).Gives i e? i' →
      (∀ path ∈ c.leafPaths r.collection leaf, c.Ends r.collection scope.hops path) ∧
        ∀ e ∈ e?.toList.flatMap Expr.predicates,
          c.Makes r.collection (c.filterPaths r.collection [] f) (c.leaves r.collection [] f)
            scope.hops e) :
    c.JoinsAlong true r.collection (c.filterPaths r.collection [] f) scope ∧
      scope.Made c r.collection (r.keysWith [] known).parts (c.filterPaths r.collection [] f)
        (c.filterPaths r.collection [] f) (c.leaves r.collection [] f) ∧
      ∀ e ∈ (r.keysWith scope.query.joins (known.and? inner?)).parts,
        e ∉ (r.keysWith [] known).parts →
        c.Makes r.collection (c.filterPaths r.collection [] f) (c.leaves r.collection [] f)
          scope.hops e := by
  have hmade : scope.Made c r.collection (r.keysWith [] known).parts
      (c.filterPaths r.collection [] f) [] (c.leaves r.collection [] f) :=
    (Scope.Made.start _).joinFilter hf (List.Subset.refl _) hjoin
  obtain ⟨hends, hpredicates⟩ := makes_of_leavesGive hmakes (leavesGive_condition? [] f hinner)
  refine ⟨?_, hmade.resolve hends, fun e he hnew => ?_⟩
  · rw [joinFilter_eq] at hjoin
    exact joinsAlong_joinPaths (isPath_of_mem_filterPaths isPath_nil hf) (joinsAlong_nil rfl) hjoin
  · rw [parts_keysWith, List.mem_cons, List.mem_append, List.mem_append] at he
    have hbase (hold : e ∈ .of r.collection r.field :: known.predicates) :
        e ∈ (r.keysWith [] known).parts := by
      have hparts := parts_keysWith r [] known none
      rw [Expr.and?] at hparts
      rw [hparts]
      simpa using hold
    rcases he with rfl | hcondition | hknown | hfilter
    · exact absurd (hbase List.mem_cons_self) hnew
    · refine hmade.parts e ?_ hnew
      simp only [Query.parts, List.mem_append]
      exact .inl (.inl (.inl (.inr hcondition)))
    · exact absurd (hbase (List.mem_cons_of_mem _ hknown)) hnew
    · exact hpredicates e hfilter

/-- What a leaf asks is made of its paths, and its parents are resolved.  The induction is on the
size of the filters about related rows. -/
theorem makes_of_leafCondition? (size : Nat) :
    ∀ {leaf : Leaf} {hops : Hops} {collection : String} {paths : List (List String)}
      {leaves : List Leaf} {e? : Option Expr} {k k' : Nat}, leaf.IsUnfolded →
      (∀ parents key quantifier f, leaf = .related parents key quantifier f → sizeOf f < size) →
      c.IsKnown collection → leaf ∈ leaves → c.leafPaths collection leaf ⊆ paths →
      (c.leafCondition? hops collection leaf).Gives k e? k' →
      (∀ path ∈ c.leafPaths collection leaf, c.Ends collection hops path) ∧
        ∀ e ∈ e?.toList.flatMap Expr.predicates, c.Makes collection paths leaves hops e := by
  induction size using Nat.strongRecOn with
  | ind size ih =>
  intro leaf hops collection paths leaves e? k k' hunfolded hsize hroot hleaf hpaths h
  cases leaf with
  | compared parents key comparisons =>
    have hstart := startsExistential_of_compared h
    rw [leafPaths, hstart, if_neg Bool.false_ne_true] at hpaths ⊢
    obtain ⟨column, hcolumn, hall⟩ := compared_gives h
    obtain ⟨hresolves, hends⟩ := resolves_of_column hcolumn
    refine ⟨fun path hpath => List.mem_singleton.mp hpath ▸ hends, fun e he => ?_⟩
    exact .column (hpaths (List.mem_singleton_self _)) (hunfolded.1.append hunfolded.2.trim)
      hresolves (.predicate (predicates_of_compareAll? hall e he))
  | related parents key quantifier f =>
    obtain ⟨owner, table, link, e, rfl, hasked, he⟩ := quantified_gives h
    obtain ⟨r, polymorphic, known, scope, several, inner?, primary, k₁, hreferring, ⟨there, hthere⟩,
      hjoin, hinner, hprimary, rfl⟩ := existential_eq he
    obtain ⟨info, hinfo, rfl, -⟩ := primary_gives.mp hprimary
    obtain ⟨hparents, -, hf⟩ := hunfolded
    refine ⟨fun path hpath => ?_, fun e he => ?_⟩
    · rw [leafPaths] at hpath
      split at hpath
      · cases hpath
      · next hstart =>
        rw [List.mem_singleton.mp hpath]
        exact ends_of_asked hasked hinfo hroot (Bool.eq_false_iff.mpr hstart)
    obtain ⟨hjoins, hmade, hparts⟩ := makes_of_keysWith hf hjoin hinner
      fun leaf hmem e? i i' hgives => ih (sizeOf f) (hsize parents key quantifier f rfl)
        (isUnfolded_of_mem_leaves f isPath_nil hf leaf hmem)
        (fun parents key quantifier g hg => sizeOf_lt_of_mem_leaves f (hg ▸ hmem))
        (.collection hthere) hmem
        (fun path hpath => by
          rw [filterPaths_eq, List.mem_flatMap]
          exact ⟨leaf, hmem, hpath⟩) hgives
    rw [Option.toList_some, List.flatMap_singleton, predicates_inQuery, List.mem_singleton] at he
    rw [he]
    exact .related hleaf hparents hf hasked hreferring (.collection hthere) hinfo rfl hjoins
      hmade.charted (fun path hpath => hmade.ends path hpath) hparts

/-- The joins of the statement of related rows lead where their paths do, and every path of the
filter is resolved. -/
theorem made_of_keysWith {r : Relation} {f : Filter} {known : Expr} {scope : Scope}
    {several : Bool} {inner? : Option Expr} {j : Nat} (hf : f.IsUnfolded)
    (hknown : c.IsKnown r.collection)
    (hjoin : (c.joinFilter true r.collection [] { query := r.keysWith [] known } f).Gives k
      (scope, several) j)
    (hinner : (c.condition? scope.hops r.collection [] f).Gives j inner? k') :
    c.JoinsAlong true r.collection (c.filterPaths r.collection [] f) scope ∧
      scope.Made c r.collection (r.keysWith [] known).parts (c.filterPaths r.collection [] f)
        (c.filterPaths r.collection [] f) (c.leaves r.collection [] f) := by
  obtain ⟨hjoins, hmade, -⟩ := makes_of_keysWith hf hjoin hinner
    fun leaf hmem e? i i' hgives => makes_of_leafCondition? (sizeOf f)
      (isUnfolded_of_mem_leaves f isPath_nil hf leaf hmem)
      (fun parents key quantifier g hg => sizeOf_lt_of_mem_leaves f (hg ▸ hmem)) hknown hmem
      (fun path hpath => by
        rw [filterPaths_eq, List.mem_flatMap]
        exact ⟨leaf, hmem, hpath⟩) hgives
  exact ⟨hjoins, hmade⟩

end Context

/-! ## Requests -/

/-- The paths that are joined for an aggregation that resolves no column: it counts whole rows. -/
def Request.countedPaths (r : Request) : List (List String) :=
  ((r.aggregate.filter fun entry => entry.1 = .countAll).flatMap Prod.snd).map fieldPath

/-- The paths of a request whose ends are looked up. -/
def Context.resolvedPaths (c : Context) (collection : String) (r : Request) :
    List (List String) :=
  r.sort.map sortPath ++ r.group.map fieldPath ++ c.requestPaths collection r ++
    ((r.aggregate.filter fun entry => entry.1 ≠ .countAll).flatMap Prod.snd).map fieldPath

namespace Scope.Made

variable {c : Context} {collection : String} {base : List Expr} {paths ended : List (List String)}
  {leaves : List Leaf} {scope scope' : Scope} {k k' : Nat}

/-- A column whose path is joined first. -/
theorem joinedColumn {key : String} {column : Column}
    (h : Made c collection base paths ended leaves scope)
    (hjoined : (c.joinedColumn collection scope key).Gives k (scope', column) k') :
    Made c collection base (paths ++ [fieldPath key]) (ended ++ [fieldPath key]) leaves scope' ∧
      c.Resolves collection scope'.hops (fieldPath key) column.expr := by
  simp only [Context.joinedColumn, Compile.gives_bind, Compile.gives_pure] at hjoined
  obtain ⟨⟨scope₁, several⟩, k₁, hjoin, found, k₂, hcolumn, hresult, rfl⟩ := hjoined
  cases hresult
  obtain ⟨hresolves, hends⟩ := Context.resolves_of_column hcolumn
  have hmade := (h.mono (List.subset_append_left paths [fieldPath key])
    (List.Subset.refl leaves)).joinPath
      (List.mem_append_right paths (List.mem_singleton_self (fieldPath key)))
      (isPath_fieldPath key) hjoin
  exact ⟨hmade.resolve fun path hpath => List.mem_singleton.mp hpath ▸ hends, hresolves⟩

theorem sortBy {entry : String} (h : Made c collection base paths ended leaves scope)
    (hsort : (c.sortBy collection scope entry).Gives k scope' k') :
    Made c collection base (paths ++ [sortPath entry]) (ended ++ [sortPath entry]) leaves
      scope' := by
  simp only [Context.sortBy, Compile.gives_bind, Compile.gives_lift, Compile.gives_pure] at hsort
  obtain ⟨⟨direction, key⟩, k₁, ⟨hkey, rfl⟩, ⟨scope₁, column⟩, k₂, hjoined, rfl, rfl⟩ := hsort
  obtain ⟨hmade, hresolves⟩ := h.joinedColumn hjoined
  rw [fieldPath_of_sortKey hkey] at hmade hresolves
  refine hmade.replace fun e he => (mem_parts_addOrder he).imp id ?_
  rintro rfl
  exact .column (List.mem_append_right paths (List.mem_singleton_self (sortPath entry)))
    (isPath_fieldPath _) hresolves .itself

theorem groupBy {key : String} (h : Made c collection base paths ended leaves scope)
    (hgroup : (c.groupBy collection scope key).Gives k scope' k') :
    Made c collection base (paths ++ [fieldPath key]) (ended ++ [fieldPath key]) leaves
      scope' := by
  simp only [Context.groupBy, Compile.gives_bind, Compile.gives_pure] at hgroup
  obtain ⟨⟨scope₁, column⟩, k₁, hjoined, rfl, rfl⟩ := hgroup
  obtain ⟨hmade, hresolves⟩ := h.joinedColumn hjoined
  have hcolumn : c.Makes collection (paths ++ [fieldPath key]) leaves scope₁.hops column.expr :=
    .column (List.mem_append_right paths (List.mem_singleton_self (fieldPath key)))
      (isPath_fieldPath key) hresolves .itself
  refine hmade.replace fun e he => ?_
  rcases mem_parts_addItem he with he | rfl
  · refine (mem_parts_addGroup he).imp id ?_
    rintro rfl
    exact hcolumn
  · exact .inr hcolumn

theorem search {q : Query} {term : String} (h : Made c collection base paths ended leaves scope)
    (hsearch : (c.search collection scope.query term).Gives k q k') :
    Made c collection base paths ended leaves { scope with query := q } := by
  simp only [Context.search, Compile.gives_bind, Context.ask_gives, Compile.gives_pure] at hsearch
  obtain ⟨fields, k₁, ⟨hfields, rfl⟩, rfl, rfl⟩ := hsearch
  refine h.replace fun e he => (mem_parts_addCondition he).imp id fun hnew => ?_
  rcases predicates_searchCondition hnew with rfl | ⟨f, hf, -, hpredicate⟩
  · exact .never
  · exact .searched hfields hf hpredicate

theorem restrict {f : Filter} {inner several : Bool}
    (h : Made c collection base paths ended leaves scope) (hroot : c.IsKnown collection)
    (hrestrict : (c.restrict inner collection scope f).Gives k (scope', several) k') :
    Made c collection base (paths ++ c.filterPaths collection [] f.unfolded)
      (ended ++ c.filterPaths collection [] f.unfolded)
      (leaves ++ c.leaves collection [] f.unfolded) scope' := by
  have hunfolded := isUnfolded_unfolded f
  obtain ⟨scope₁, k₁, e?, hjoin, he, hhops, hquery⟩ :=
    Context.addFilter_gives (Context.addFilter_of_restrict hrestrict)
  have hmade := (h.mono (List.subset_append_left paths (c.filterPaths collection [] f.unfolded))
    (List.subset_append_left leaves (c.leaves collection [] f.unfolded))).joinFilter hunfolded
      (List.subset_append_right _ _) hjoin
  have hleaf (leaf : Leaf) (hmem : leaf ∈ c.leaves collection [] f.unfolded) (e? : Option Expr)
      (i i' : Nat) (hgives : (c.leafCondition? scope₁.hops collection leaf).Gives i e? i') :
      (∀ path ∈ c.leafPaths collection leaf, c.Ends collection scope₁.hops path) ∧
        ∀ e ∈ e?.toList.flatMap Expr.predicates,
          c.Makes collection (paths ++ c.filterPaths collection [] f.unfolded)
            (leaves ++ c.leaves collection [] f.unfolded) scope₁.hops e :=
    Context.makes_of_leafCondition? (sizeOf f.unfolded)
      (Context.isUnfolded_of_mem_leaves f.unfolded isPath_nil hunfolded leaf hmem)
      (fun parents key quantifier g hg => Context.sizeOf_lt_of_mem_leaves f.unfolded (hg ▸ hmem))
      hroot (List.mem_append_right _ hmem)
      (fun path hpath => List.mem_append_right _ (by
        rw [Context.filterPaths_eq, List.mem_flatMap]
        exact ⟨leaf, hmem, hpath⟩)) hgives
  obtain ⟨hends, hpredicates⟩ :=
    Context.makes_of_leavesGive hleaf (Context.leavesGive_condition? [] f.unfolded he)
  obtain ⟨query, hops⟩ := scope'
  obtain rfl : hops = scope₁.hops := hhops
  refine (hmade.resolve hends).replace (q := query) fun e he => ?_
  have hcases : e ∈ scope₁.query.parts ∨ e ∈ e?.toList.flatMap Expr.predicates := by
    dsimp only at hquery
    rw [hquery] at he
    cases e? with
    | none => exact .inl he
    | some condition =>
      rw [Option.toList_some, List.flatMap_singleton]
      exact mem_parts_addCondition he
  exact hcases.imp id (hpredicates e)

variable (leaves) in
/-- An aggregation of a field is that of the column of its path, or counts whole rows. -/
theorem aggregateExpr {info : CollectionInfo} {aggregation : Aggregation} {field : String}
    {e : Expr} (hinfo : c.provider.collection info.name = .ok (some info))
    (hmem : fieldPath field ∈ paths)
    (h : (c.aggregateExpr info scope aggregation field).Gives k e k') :
    c.Ends info.name scope.hops (fieldPath field) ∧
      c.Makes info.name paths leaves scope.hops e := by
  unfold Context.aggregateExpr at h
  split at h
  · next hrows =>
    split at h
    · obtain ⟨rfl, rfl⟩ := Compile.gives_pure.mp h
      refine ⟨⟨.root info.name, ?_, .collection hinfo⟩, ?_⟩
      · rw [hrows]
        rfl
      · split
        · exact .keys hinfo
        · exact .rows
    · exact absurd h Compile.not_gives_throw
  · simp only [Compile.gives_bind, Compile.gives_pure] at h
    obtain ⟨column, k₁, hcolumn, rfl, rfl⟩ := h
    obtain ⟨hresolves, hends⟩ := Context.resolves_of_column hcolumn
    exact ⟨hends, .column hmem (isPath_fieldPath field) hresolves (.aggregation aggregation)⟩

variable (leaves) in
theorem aggregateItems {info : CollectionInfo} {entry : Aggregation × List String}
    {items : List Item} (hinfo : c.provider.collection info.name = .ok (some info))
    (hmem : entry.2.map fieldPath ⊆ paths)
    (h : (c.aggregateItems info scope entry).Gives k items k') :
    (entry.1 ≠ .countAll → ∀ field ∈ entry.2, c.Ends info.name scope.hops (fieldPath field)) ∧
      ∀ item ∈ items, c.Makes info.name paths leaves scope.hops item.expr := by
  obtain ⟨aggregation, fields⟩ := entry
  unfold Context.aggregateItems at h
  dsimp only at h hmem ⊢
  split at h
  · next hall =>
    obtain ⟨rfl, rfl⟩ := Compile.gives_pure.mp h
    refine ⟨fun hother => absurd hall hother, fun item hitem => ?_⟩
    rw [List.mem_singleton.mp hitem]
    exact .rows
  · have hbuilt := Compile.mapM_builds
      (P := fun done results _ => done.map fieldPath ⊆ paths →
        (∀ field ∈ done, c.Ends info.name scope.hops (fieldPath field)) ∧
          ∀ item ∈ results, c.Makes info.name paths leaves scope.hops item.expr)
      ?_ (fun _ => ⟨fun _ hnone => (by cases hnone), fun _ hnone => (by cases hnone)⟩) h hmem
    · exact ⟨fun _ => hbuilt.1, hbuilt.2⟩
    · intro done results field j item j' hdone hitem hsub
      simp only [Compile.gives_bind, Compile.gives_pure] at hitem
      obtain ⟨e, j₁, he, rfl, rfl⟩ := hitem
      rw [List.map_append, List.map_singleton, List.append_subset] at hsub
      obtain ⟨hbefore, hitems⟩ := hdone hsub.1
      obtain ⟨hends, hmakes⟩ :=
        aggregateExpr leaves hinfo (hsub.2 (List.mem_singleton_self _)) he
      refine ⟨fun other hother => ?_, fun other hother => ?_⟩
      · rcases List.mem_append.mp hother with hother | hother
        · exact hbefore other hother
        · exact List.mem_singleton.mp hother ▸ hends
      · rcases List.mem_append.mp hother with hother | hother
        · exact hitems other hother
        · exact List.mem_singleton.mp hother ▸ hmakes

theorem addAggregate {info : CollectionInfo} {aggregate : List (Aggregation × List String)}
    (h : Made c info.name base paths ended leaves scope)
    (hinfo : c.provider.collection info.name = .ok (some info))
    (hadd : (c.addAggregate info scope aggregate).Gives k scope' k') :
    Made c info.name base (paths ++ (aggregate.flatMap Prod.snd).map fieldPath)
      (ended ++ ((aggregate.filter fun entry => entry.1 ≠ .countAll).flatMap Prod.snd).map
        fieldPath) leaves scope' := by
  simp only [Context.addAggregate, Compile.gives_bind, Compile.gives_pure] at hadd
  obtain ⟨scope₁, k₁, hjoin, items, k₂, hitems, rfl, rfl⟩ := hadd
  have hjoined : Made c info.name base (paths ++ (aggregate.flatMap Prod.snd).map fieldPath)
      ended leaves scope₁ := by
    refine Compile.foldlM_builds
      (P := fun done s _ => Made c info.name base (paths ++ done.map fieldPath) ended leaves s)
      ?_ (h.mono (List.subset_append_left _ _) (List.Subset.refl leaves)) hjoin
    intro done s field j s' j' hdone hstep
    obtain ⟨⟨s₁, several⟩, hpath, rfl⟩ := Compile.gives_map.mp hstep
    rw [List.map_append, List.map_singleton, ← List.append_assoc]
    exact (hdone.mono (List.subset_append_left _ _) (List.Subset.refl leaves)).joinPath
      (List.mem_append_right _ (List.mem_singleton_self (fieldPath field)))
      (isPath_fieldPath field) hpath
  have hentries : (∀ entry ∈ aggregate, entry.1 ≠ .countAll → ∀ field ∈ entry.2,
        c.Ends info.name scope₁.hops (fieldPath field)) ∧
      ∀ group ∈ items, ∀ item ∈ group,
        c.Makes info.name (paths ++ (aggregate.flatMap Prod.snd).map fieldPath) leaves
          scope₁.hops item.expr := by
    have hbuilt := Compile.mapM_builds
      (P := fun done results _ => done ⊆ aggregate →
        (∀ entry ∈ done, entry.1 ≠ .countAll → ∀ field ∈ entry.2,
          c.Ends info.name scope₁.hops (fieldPath field)) ∧
        ∀ group ∈ results, ∀ item ∈ group,
          c.Makes info.name (paths ++ (aggregate.flatMap Prod.snd).map fieldPath) leaves
            scope₁.hops item.expr)
      ?_ (fun _ => ⟨fun _ hnone => (by cases hnone), fun _ hnone => (by cases hnone)⟩) hitems
    · exact hbuilt (List.Subset.refl aggregate)
    · intro done results entry j group j' hdone hgroup hsub
      rw [List.append_subset] at hsub
      obtain ⟨hbefore, hgroups⟩ := hdone hsub.1
      have hmem := hsub.2 (List.mem_singleton_self entry)
      have hpaths : entry.2.map fieldPath ⊆
          paths ++ (aggregate.flatMap Prod.snd).map fieldPath := by
        refine List.subset_append_of_subset_right _ (List.map_subset _ fun field hfield => ?_)
        exact List.mem_flatMap.mpr ⟨entry, hmem, hfield⟩
      have hentry := aggregateItems leaves hinfo hpaths hgroup
      refine ⟨fun other hother => ?_, fun other hother => ?_⟩
      · rcases List.mem_append.mp hother with hother | hother
        · exact hbefore other hother
        · exact List.mem_singleton.mp hother ▸ hentry.1
      · rcases List.mem_append.mp hother with hother | hother
        · exact hgroups other hother
        · exact List.mem_singleton.mp hother ▸ hentry.2
  have hends : ∀ path ∈ ((aggregate.filter fun entry => entry.1 ≠ .countAll).flatMap
      Prod.snd).map fieldPath, c.Ends info.name scope₁.hops path := by
    intro path hpath
    obtain ⟨field, hfield, rfl⟩ := List.mem_map.mp hpath
    obtain ⟨entry, hentry, hfield⟩ := List.mem_flatMap.mp hfield
    rw [List.mem_filter, decide_eq_true_eq] at hentry
    exact hentries.1 entry hentry.1 hentry.2 field hfield
  refine (hjoined.resolve hends).replace fun e he => (mem_parts_addItems he).imp id fun hnew => ?_
  obtain ⟨item, hitem, rfl⟩ := List.mem_map.mp hnew
  obtain ⟨group, hgroup, hitem⟩ := List.mem_flatten.mp hitem
  exact hentries.2 group hgroup item hitem

/-! ### Stages -/

section Stages

variable {r : Request}

theorem orderStage {q : Query} (h : (c.orderStage collection false r q).Gives k scope k') :
    Made c collection q.parts (r.sort.map sortPath) (r.sort.map sortPath) [] scope := by
  rw [Context.orderStage, if_neg Bool.false_ne_true] at h
  obtain ⟨window, hwindow⟩ := Query.narrow_eq q (c.options.window r)
  rw [hwindow] at h
  refine Compile.foldlM_builds
    (P := fun done s _ =>
      Made c collection q.parts (done.map sortPath) (done.map sortPath) [] s)
    ?_ (start { q with window }) h
  intro done s entry j s' j' hdone hstep
  rw [List.map_append, List.map_singleton]
  exact hdone.sortBy hstep

theorem searchStage (h : Made c collection base paths ended leaves scope)
    (hsearch : (c.searchStage collection r scope).Gives k scope' k') :
    Made c collection base paths ended leaves scope' := by
  unfold Context.searchStage at hsearch
  split at hsearch
  · obtain ⟨rfl, rfl⟩ := Compile.gives_pure.mp hsearch
    exact h
  · obtain ⟨sought, hsought, rfl⟩ := Compile.gives_map.mp hsearch
    exact h.search hsought

theorem groupStage (h : Made c collection base paths ended leaves scope)
    (hgroup : (r.group.foldlM (c.groupBy collection) scope).Gives k scope' k') :
    Made c collection base (paths ++ r.group.map fieldPath) (ended ++ r.group.map fieldPath)
      leaves scope' := by
  refine Compile.foldlM_builds
    (P := fun done s _ => Made c collection base (paths ++ done.map fieldPath)
      (ended ++ done.map fieldPath) leaves s) ?_ ?_ hgroup
  · intro done s key j s' j' hdone hstep
    rw [List.map_append, List.map_singleton, ← List.append_assoc, ← List.append_assoc]
    exact hdone.groupBy hstep
  · rw [List.map_nil, List.append_nil, List.append_nil]
    exact h

theorem filterStage {several : Bool} (h : Made c collection base paths ended leaves scope)
    (hroot : c.IsKnown collection)
    (hfilter : (c.filterStage collection false r scope).Gives k (scope', several) k') :
    Made c collection base (paths ++ c.requestPaths collection r)
      (ended ++ c.requestPaths collection r) (leaves ++ c.requestLeaves collection r) scope' := by
  rcases Context.filterStage_gives hfilter with ⟨hnone, rfl, -⟩ | ⟨f, hsome, hrestrict⟩
  · rw [Context.requestPaths, Context.requestLeaves, hnone, Option.toList_none, List.flatMap_nil,
      List.flatMap_nil, List.append_nil, List.append_nil, List.append_nil]
    exact h
  · rw [Context.requestPaths, Context.requestLeaves, hsome, Option.toList_some,
      List.flatMap_singleton, List.flatMap_singleton]
    exact h.restrict hroot hrestrict

theorem aggregateStage {info : CollectionInfo}
    (h : Made c info.name base paths ended leaves scope)
    (hinfo : c.provider.collection info.name = .ok (some info))
    (haggregate : (c.aggregateStage info r scope).Gives k scope' k') :
    Made c info.name base (paths ++ (r.aggregate.flatMap Prod.snd).map fieldPath)
      (ended ++ ((r.aggregate.filter fun entry => entry.1 ≠ .countAll).flatMap Prod.snd).map
        fieldPath) leaves scope' := by
  unfold Context.aggregateStage at haggregate
  split at haggregate
  · next hempty =>
    obtain ⟨rfl, rfl⟩ := Compile.gives_pure.mp haggregate
    rw [List.isEmpty_iff.mp hempty, List.filter_nil, List.flatMap_nil, List.map_nil,
      List.append_nil, List.append_nil]
    exact h
  · exact h.addAggregate hinfo haggregate

end Stages

end Scope.Made

namespace Context

variable {c : Context} {collection : String} {k : Nat}

/-- A request that is added to a statement without joins is made of what the request walks and asks.
Every walked path is resolved, unless it is that of an aggregation that counts whole rows. -/
theorem makes_of_apply {q : Query} {r : Request} {applied : Applied}
    (hnamed : ∀ info, c.provider.collection collection = .ok (some info) →
      info.name = collection)
    (hjoins : q.joins = []) (h : (c.apply collection q r false).Gives 0 applied k) :
    ∃ hops, c.JoinsAlong false collection (c.walkedPaths collection r)
        { query := applied.query, hops } ∧
      Scope.Made c collection q.parts (c.walkedPaths collection r) (c.resolvedPaths collection r)
        (c.requestLeaves collection r) { query := applied.query, hops } := by
  simp only [apply_eq, Compile.gives_bind, Compile.gives_pure] at h
  obtain ⟨info, k₁, hinfo, scope₁, k₂, horder, scope₂, k₃, hsearch, scope₃, k₄, hgroup,
    ⟨scope₄, repeatsRows⟩, k₅, hfilter, scope₅, k₆, haggregate, rfl, rfl⟩ := h
  obtain ⟨hfound, rfl⟩ := collection_gives.mp hinfo
  obtain rfl : info.name = collection := hnamed info hfound
  have hwalked := joinsAlong_aggregateStage (joinsAlong_filterStage (joinsAlong_groupStage
    (joinsAlong_searchStage (joinsAlong_orderStage hjoins horder) hsearch) hgroup) hfilter)
    haggregate
  have hmade := ((((Scope.Made.orderStage horder).searchStage hsearch).groupStage
    hgroup).filterStage (.collection hfound) hfilter).aggregateStage hfound haggregate
  exact ⟨scope₅.hops, hwalked, hmade⟩

/-- A walked path is resolved, or counts whole rows. -/
theorem mem_walkedPaths {r : Request} {path : List String}
    (h : path ∈ c.walkedPaths collection r) :
    path ∈ c.resolvedPaths collection r ∨ path ∈ r.countedPaths := by
  rcases List.mem_append.mp h with h | h
  · exact .inl (List.mem_append_left _ h)
  · obtain ⟨field, hfield, rfl⟩ := List.mem_map.mp h
    obtain ⟨entry, hentry, hfield⟩ := List.mem_flatMap.mp hfield
    by_cases hall : entry.1 = .countAll
    · refine .inr (List.mem_map_of_mem (List.mem_flatMap.mpr ⟨entry, ?_, hfield⟩))
      exact List.mem_filter.mpr ⟨hentry, decide_eq_true hall⟩
    · refine .inl (List.mem_append_right _ (List.mem_map_of_mem (List.mem_flatMap.mpr
        ⟨entry, ?_, hfield⟩)))
      exact List.mem_filter.mpr ⟨hentry, decide_eq_true hall⟩

end Context

end JsonSql
