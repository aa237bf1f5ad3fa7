import JsonSql.Proofs.Existential
import JsonSql.Proofs.Introductions
import JsonSql.Proofs.Links

set_option autoImplicit false

/-!
# Links that a filter follows

Where the paths of a filter lead, said by the links alone, and which links are followed on the way:
those that are joined, those whose rows are counted, and those whose rows are asked about.  The
joins that a statement records agree with this (`Hops.Led`).
-/

namespace JsonSql

open JsonSql.Sql

/-! ## Keys of links -/

/-- The collection whose primary key the key of a link refers to. -/
def Link.referred? (owner : String) : Link → Option String
  | .none => Option.none
  | .manyToOne r => r.related
  | .manyToAny _ scope => scope
  | .oneToMany _ | .oneToAny _ => some owner

/-- The columns by which a link from a collection finds rows: its key, the discriminator of a
polymorphic key, and the primary key that it refers to. -/
inductive Link.HasKey (s : Schema) (owner : String) (link : Link) : String → String → Prop
  | field {r : Relation} : link.relation? = some r → HasKey s owner link r.collection r.field
  | discriminator {r : Relation} {column : String} : link.relation? = some r →
      r.info.discriminator = some column → HasKey s owner link r.collection column
  | primary {collection : String} : link.referred? owner = some collection →
      HasKey s owner link collection (s.primaryOf collection)

namespace Context

variable {c : Context} {collection : String} {hops : Hops} {k k' : Nat}

/-! ## Destinations -/

/-- The collection that the segments of a path lead to, one after another. -/
def destination? (c : Context) (collection : String) (path : List String) : Option String :=
  path.foldlM (fun owner segment => (c.link owner segment).target?) collection

theorem destination?_concat (before : List String) (segment : String) :
    c.destination? collection (before ++ [segment]) =
      (c.destination? collection before).bind fun owner => (c.link owner segment).target? := by
  rw [destination?, List.foldlM_append]
  simp [destination?]

/-- The collection that a filter on related rows is asked from, and the link to them.  At the root
the key counts as it is written; elsewhere the link starts from the join that is recorded under the
text of the path, where no path and an empty segment read alike. -/
def relatedLink? (c : Context) (collection : String) (parents : List String) (key : String) :
    Option (String × Link) :=
  if c.startsExistential collection parents key then some (collection, c.link collection key)
  else (c.destination? collection (if parents = [] then [""] else parents)).map fun owner =>
    (owner, c.link owner (Text.trim key))

/-- What a filter on a collection compares, at any depth: the field, or the function of a field, of
a collection. -/
inductive Compares (c : Context) : String → Filter → String → String → List Comparison → Prop
  | leaf {collection owner key : String} {f : Filter} {parents : List String}
      {comparisons : List Comparison} :
      .compared parents key comparisons ∈ c.leaves collection [] f →
      c.destination? collection parents = some owner →
      Compares c collection f owner (Text.trim key) comparisons
  | inside {collection there owner key field : String} {f g : Filter} {parents : List String}
      {quantifier : Quantifier} {link : Link} {r : Relation} {comparisons : List Comparison} :
      .related parents key quantifier g ∈ c.leaves collection [] f →
      c.relatedLink? collection parents key = some (there, link) →
      link.relation? = some r → Compares c r.collection g owner field comparisons →
      Compares c collection f owner field comparisons

/-- The links that a filter on a collection follows, at any depth: those on the way to its leaves,
those whose rows are counted, and those whose rows are asked about. -/
inductive Follows (c : Context) : String → Filter → String → Link → Prop
  | along {collection owner segment : String} {f : Filter} {path before : List String} :
      path ∈ c.filterPaths collection [] f → before ++ [segment] <+: path.dropLast →
      c.destination? collection before = some owner →
      Follows c collection f owner (c.link owner segment)
  | counted {collection owner key function field : String} {f : Filter} {parents : List String}
      {comparisons : List Comparison} :
      .compared parents key comparisons ∈ c.leaves collection [] f →
      c.destination? collection parents = some owner →
      splitFunction (Text.trim key) = (some function, field) →
      FieldFunction.ofName? function = some .count →
      Follows c collection f owner (c.link owner field)
  | asked {collection owner key : String} {f g : Filter} {parents : List String}
      {quantifier : Quantifier} {link : Link} :
      .related parents key quantifier g ∈ c.leaves collection [] f →
      c.relatedLink? collection parents key = some (owner, link) →
      Follows c collection f owner link
  | inside {collection there owner key : String} {f g : Filter} {parents : List String}
      {quantifier : Quantifier} {link other : Link} {r : Relation} :
      .related parents key quantifier g ∈ c.leaves collection [] f →
      c.relatedLink? collection parents key = some (there, link) →
      link.relation? = some r → Follows c r.collection g owner other →
      Follows c collection f owner other

end Context

/-! ## Records of joins -/

/-- Every join that is recorded leads where its path leads. -/
def Hops.Leads (c : Context) (collection : String) (hops : Hops) : Prop :=
  ∀ path hop, path ≠ [] → IsPath path → hops.get? path = some hop →
    c.destination? collection path = some hop.collection

namespace Hops.Leads

variable {c : Context} {collection : String} {inner several : Bool} {scope scope' : Scope}
  {hops : Hops} {k k' : Nat}

theorem empty : Leads c collection {} := fun _ _ _ _ hfound => (by cases hfound)

/-- The place that a path has led to is where its segments lead. -/
theorem reached {before : List String} {place : Place} (h : Leads c collection scope.hops)
    (hpath : IsPath before) (hreach : scope.Reaches collection before place) :
    c.destination? collection before = some place.collection := by
  cases hreach with
  | root => rfl
  | hop hfound => exact h _ _ (by simp) hpath hfound

theorem joinStep {path before : List String} {segment target : String} {place : Place}
    {condition : Expr} (hpath : IsPath path) (h : Leads c collection scope.hops)
    (hstep : JoinStep c collection path scope k before segment place target condition scope' k') :
    Leads c collection scope'.hops := by
  obtain ⟨halong, hreach, -, hjoined, rfl⟩ := hstep
  have hnext : IsPath (before ++ [segment]) := hpath.ofPrefix halong
  have hbefore : IsPath before := fun s hs => hnext s (List.mem_append_left _ hs)
  intro other hop hne hother hfound
  rcases Hops.get?_insert_eq_some hfound with ⟨hkey, rfl⟩ | ⟨-, hold⟩
  · obtain rfl := Hops.key_injective hother hnext hne (by simp) hkey
    rw [Context.destination?_concat, h.reached hbefore hreach, Option.bind_some]
    exact Context.target?_of_joinTarget hjoined
  · exact h other hop hne hother hold

theorem joinPath {path : List String} (hpath : IsPath path) (h : Leads c collection scope.hops)
    (hjoin : (c.joinPath inner collection scope path).Gives k (scope', several) k') :
    Leads c collection scope'.hops :=
  Context.joinPath_keeps (P := fun scope _ => Leads c collection scope.hops)
    (fun hleads => hleads.joinStep hpath) h hjoin

theorem joinFilter {f : Filter} (hf : f.IsUnfolded) (h : Leads c collection scope.hops)
    (hjoin : (c.joinFilter inner collection [] scope f).Gives k (scope', several) k') :
    Leads c collection scope'.hops :=
  Context.joinFilter_keeps (P := fun scope _ => Leads c collection scope.hops)
    (fun hmem hleads => hleads.joinStep (Context.isPath_of_mem_filterPaths isPath_nil hf _ hmem))
    h hjoin

/-- A field is read where the parents of its path lead. -/
theorem placeOf {parents : List String} {shown : String} {place : Place}
    (h : Leads c collection hops) (hparents : IsPath parents)
    (hplace : Context.placeOf hops collection parents shown = .ok place) :
    c.destination? collection parents = some place.collection := by
  rcases Context.placeOf_eq_ok hplace with ⟨rfl, rfl⟩ | ⟨hne, hop, hfound, rfl⟩
  · rfl
  · exact h parents hop hne hparents hfound

/-- A filter on related rows is asked where the parents of its path lead. -/
theorem relatedLink? {parents : List String} {key owner table : String} {link : Link}
    (h : Leads c collection hops) (hparents : IsPath parents)
    (hasked : c.IsAsked hops collection parents key owner table link) :
    c.relatedLink? collection parents key = some (owner, link) := by
  unfold Context.relatedLink?
  rcases hasked.place with ⟨hstart, howner, -, hlink⟩ | ⟨hstart, hop, hfound, howner, -, hlink⟩
  · rw [if_pos hstart, howner, hlink]
  · rw [if_neg (Bool.eq_false_iff.mp hstart), howner, hlink]
    split
    · next hnone =>
      have hempty : IsPath [""] := by
        intro segment hsegment
        rw [List.mem_singleton.mp hsegment]
        exact List.not_mem_nil
      have hsame : hops.get? [""] = some hop := by
        rw [hnone] at hfound
        exact hfound
      rw [h [""] hop (List.cons_ne_nil _ _) hempty hsame, Option.map_some]
    · next hne => rw [h parents hop hne hparents hfound, Option.map_some]

end Hops.Leads

/-- Every join that is recorded goes by an alias that is issued, and leads where its path leads. -/
structure Hops.Led (c : Context) (collection : String) (hops : Hops) (k : Nat) : Prop where
  issued : ∀ path hop, hops.get? path = some hop → ∃ j < k, hop.name = c.names j
  leads : ∀ path hop, path ≠ [] → IsPath path → hops.get? path = some hop →
    c.destination? collection path = some hop.collection

namespace Hops.Led

variable {c : Context} {collection : String} {inner several : Bool} {scope scope' : Scope}
  {hops : Hops} {k k' : Nat}

theorem empty (k : Nat) : Led c collection {} k :=
  ⟨fun _ _ hfound => (by cases hfound), fun _ _ _ _ hfound => (by cases hfound)⟩

theorem mono (h : Led c collection hops k) (hle : k ≤ k') : Led c collection hops k' := by
  refine ⟨fun path hop hfound => ?_, h.leads⟩
  obtain ⟨j, hj, hname⟩ := h.issued path hop hfound
  exact ⟨j, Nat.lt_of_lt_of_le hj hle, hname⟩

/-- No join goes by an alias that is still to be issued. -/
theorem name_ne (h : Led c collection hops k) (hinjective : Function.Injective c.names)
    {path : List String} {hop : Hop} (hfound : hops.get? path = some hop) :
    hop.name ≠ c.names k := by
  obtain ⟨j, hj, hname⟩ := h.issued path hop hfound
  intro hsame
  exact absurd (hinjective (hname.symm.trans hsame)) (Nat.ne_of_lt hj)

/-- The place that a path has led to is where its segments lead. -/
theorem reached {before : List String} {place : Place} (h : Led c collection scope.hops k)
    (hpath : IsPath before) (hreach : scope.Reaches collection before place) :
    c.destination? collection before = some place.collection :=
  Leads.reached h.leads hpath hreach

theorem joinStep {path before : List String} {segment target : String} {place : Place}
    {condition : Expr} (hpath : IsPath path) (h : Led c collection scope.hops k)
    (hstep : JoinStep c collection path scope k before segment place target condition scope' k') :
    Led c collection scope'.hops k' := by
  have hleads := Leads.joinStep hpath h.leads hstep
  have hgrows := Context.grows_joinTarget _ _ _ _ hstep.joined
  refine ⟨fun other hop hfound => ?_, hleads⟩
  rw [hstep.result] at hfound
  rcases Hops.get?_insert_eq_some hfound with ⟨-, rfl⟩ | ⟨-, hold⟩
  · exact ⟨k, hgrows, rfl⟩
  · obtain ⟨j, hj, hname⟩ := h.issued other hop hold
    exact ⟨j, by omega, hname⟩

theorem joinPath {path : List String} (hpath : IsPath path) (h : Led c collection scope.hops k)
    (hjoin : (c.joinPath inner collection scope path).Gives k (scope', several) k') :
    Led c collection scope'.hops k' :=
  Context.joinPath_keeps (P := fun scope k => Led c collection scope.hops k)
    (fun hled => hled.joinStep hpath) h hjoin

theorem joinFilter {f : Filter} (hf : f.IsUnfolded) (h : Led c collection scope.hops k)
    (hjoin : (c.joinFilter inner collection [] scope f).Gives k (scope', several) k') :
    Led c collection scope'.hops k' :=
  Context.joinFilter_keeps (P := fun scope k => Led c collection scope.hops k)
    (fun hmem hled => hled.joinStep (Context.isPath_of_mem_filterPaths isPath_nil hf _ hmem))
    h hjoin

/-- A field is read where the parents of its path lead. -/
theorem placeOf {parents : List String} {shown : String} {place : Place}
    (h : Led c collection hops k) (hparents : IsPath parents)
    (hplace : Context.placeOf hops collection parents shown = .ok place) :
    c.destination? collection parents = some place.collection :=
  Leads.placeOf h.leads hparents hplace

/-- A filter on related rows is asked where the parents of its path lead. -/
theorem relatedLink? {parents : List String} {key owner table : String} {link : Link}
    (h : Led c collection hops k) (hparents : IsPath parents)
    (hasked : c.IsAsked hops collection parents key owner table link) :
    c.relatedLink? collection parents key = some (owner, link) :=
  Leads.relatedLink? h.leads hparents hasked

end Hops.Led

end JsonSql
