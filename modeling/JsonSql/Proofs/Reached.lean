import JsonSql.Proofs.Declared
import JsonSql.Proofs.Followed

set_option autoImplicit false

/-!
# Collections that paths reach

The collection that a path reaches is found by the links of its segments, where a polymorphic key
leads to allowed collections only (`Context.reach?`).  A statement records a join for a path only if
the path reaches the collection that is joined, and goes on from there only if that collection is
known to exist (`Hops.Charted`).
-/

namespace JsonSql

open JsonSql.Sql

/-! ## Places on record -/

/-- The place that a path has led to: the root, or that of the join on record. -/
def Hops.place? (hops : Hops) (collection : String) (path : List String) : Option Place :=
  if path = [] then some (.root collection) else (hops.get? path).map Hop.place

namespace Hops

variable {hops hops' : Hops} {collection : String} {path : List String}

@[simp] theorem place?_nil : hops.place? collection [] = some (.root collection) := rfl

theorem place?_of_ne_nil (h : path ≠ []) :
    hops.place? collection path = (hops.get? path).map Hop.place := if_neg h

theorem place?_of_placeOf {place : Place} {shown : String}
    (h : Context.placeOf hops collection path shown = .ok place) :
    hops.place? collection path = some place := by
  rcases Context.placeOf_eq_ok h with ⟨rfl, rfl⟩ | ⟨hne, hop, hfound, rfl⟩
  · rfl
  · rw [place?_of_ne_nil hne, hfound, Option.map_some]

/-- What is on record is the root or a join. -/
theorem place?_cases {place : Place} (h : hops.place? collection path = some place) :
    (path = [] ∧ place = .root collection) ∨
      path ≠ [] ∧ ∃ hop, hops.get? path = some hop ∧ place = hop.place := by
  unfold place? at h
  split at h
  · next hnil => exact .inl ⟨hnil, (Option.some.inj h).symm⟩
  · next hne =>
    obtain ⟨hop, hfound, rfl⟩ := Option.map_eq_some_iff.mp h
    exact .inr ⟨hne, hop, hfound, rfl⟩

/-- Joins that are recorded later do not count. -/
theorem place?_mono {place : Place} (hkeeps : Context.Keeps hops hops')
    (h : hops.place? collection path = some place) : hops'.place? collection path = some place := by
  rcases place?_cases h with ⟨rfl, rfl⟩ | ⟨hne, hop, hfound, rfl⟩
  · rfl
  · rw [place?_of_ne_nil hne, hkeeps _ _ hfound, Option.map_some]

end Hops

theorem Scope.Reaches.place? {collection : String} {scope : Scope} {before : List String}
    {place : Place} (h : scope.Reaches collection before place) :
    scope.hops.place? collection before = some place := by
  cases h with
  | root => rfl
  | hop hfound => rw [Hops.place?_of_ne_nil (by simp), hfound, Option.map_some]

namespace Context

variable {c : Context} {collection : String}

/-! ## Walks through the schema -/

/-- The collection that a path reaches from a root. -/
def reach? (c : Context) (root : String) (path : List String) : Option String :=
  path.foldlM (fun owner segment => (c.link owner segment).admitted?) root

theorem reach?_concat (root : String) (before : List String) (segment : String) :
    c.reach? root (before ++ [segment]) =
      (c.reach? root before).bind fun owner => (c.link owner segment).admitted? := by
  rw [reach?, List.foldlM_append]
  simp [reach?]

/-- A link is joined to a collection that it may lead to. -/
theorem admitted?_of_joinTarget {place : Place} {segment table target : String} {link : Link}
    {e : Expr} {k k' : Nat}
    (h : (c.joinTarget place segment table link).Gives k (target, e) k') :
    link.admitted? = some target := by
  have htarget := target?_of_joinTarget h
  cases link with
  | manyToAny r scope =>
    obtain rfl : scope = some target := htarget
    unfold joinTarget at h
    dsimp only at h
    split at h
    · next hallowed => exact Option.filter_eq_some_iff.mpr ⟨rfl, hallowed⟩
    · exact absurd h Compile.not_gives_throw
  | none | manyToOne r | oneToMany r | oneToAny r => exact htarget

/-- A link is joined from a collection that is known to exist: its primary key is looked up, or the
key of a relation is. -/
theorem isKnown_of_joinTarget {place : Place} {segment table target : String} {e : Expr}
    {k k' : Nat}
    (h : (c.joinTarget place segment table (c.link place.collection segment)).Gives k
      (target, e) k') : c.IsKnown place.collection := by
  have hcases := link_cases c.relations place.collection segment
  rw [← link] at hcases
  generalize c.link place.collection segment = link at h hcases
  have hprimary {primary : String} {j j' : Nat}
      (hprimary : (c.primary place.collection).Gives j primary j') :
      c.IsKnown place.collection := by
    obtain ⟨info, hinfo, -⟩ := primary_gives.mp hprimary
    exact .collection hinfo
  -- a link along a key of the collection goes along a relation of the schema
  have hstored (hone : link.isToMany = false) : link.IsStored c.relations place.collection := by
    rcases hcases with ⟨key, -, rfl⟩ | ⟨-, hstored⟩
    · rw [FollowedKey.isToMany_link] at hone
      cases hone
    · exact hstored
  cases link with
  | none => exact absurd h Compile.not_gives_throw
  | manyToOne r =>
    cases hstored rfl with
    | manyToOne hr hstarts _ => exact .relation hr hstarts
  | manyToAny r scope =>
    cases hstored rfl with
    | manyToAny _ hr hstarts _ => exact .relation hr hstarts
  | oneToMany r =>
    rw [joinTarget] at h
    simp only [Compile.gives_bind] at h
    obtain ⟨primary, j, hgives, -⟩ := h
    exact hprimary hgives
  | oneToAny r =>
    rw [joinTarget] at h
    simp only [Compile.gives_bind] at h
    obtain ⟨column, i, -, primary, j, hgives, -⟩ := h
    exact hprimary hgives

end Context

/-! ## Records of joins -/

/-- Every join on record leads to the collection that its path reaches, from a place whose
collection is known to exist. -/
structure Hops.Charted (c : Context) (collection : String) (hops : Hops) : Prop where
  reached : ∀ path hop, path ≠ [] → IsPath path → hops.get? path = some hop →
    c.reach? collection path = some hop.collection
  rooted : ∀ before segment hop, IsPath (before ++ [segment]) →
    hops.get? (before ++ [segment]) = some hop →
    ∃ place, hops.place? collection before = some place ∧ c.IsKnown place.collection

namespace Hops.Charted

variable {c : Context} {collection : String} {inner several : Bool} {scope scope' : Scope}
  {hops : Hops} {k k' : Nat}

theorem empty : Charted c collection {} :=
  ⟨fun _ _ _ _ hfound => (by cases hfound), fun _ _ _ _ hfound => (by cases hfound)⟩

/-- The place on record for a path is where the path leads. -/
theorem reach? {path : List String} {place : Place} (h : Charted c collection hops)
    (hpath : IsPath path) (hplace : hops.place? collection path = some place) :
    c.reach? collection path = some place.collection := by
  rcases place?_cases hplace with ⟨rfl, rfl⟩ | ⟨hne, hop, hfound, rfl⟩
  · rfl
  · exact h.reached path hop hne hpath hfound

theorem joinStep {path before : List String} {segment target : String} {place : Place}
    {condition : Expr} (hpath : IsPath path) (h : Charted c collection scope.hops)
    (hstep : JoinStep c collection path scope k before segment place target condition scope' k') :
    Charted c collection scope'.hops := by
  have hkeeps : Context.Keeps scope.hops scope'.hops :=
    Context.keeps_of_joinStep (fun _ _ hfound => hfound) hstep
  obtain ⟨halong, hreach, -, hjoined, rfl⟩ := hstep
  have hnext : IsPath (before ++ [segment]) := hpath.ofPrefix halong
  have hbefore : IsPath before := fun s hs => hnext s (List.mem_append_left _ hs)
  refine ⟨fun other hop hne hother hfound => ?_, fun other last hop hother hfound => ?_⟩
  · rcases Hops.get?_insert_eq_some hfound with ⟨hkey, rfl⟩ | ⟨-, hold⟩
    · obtain rfl := Hops.key_injective hother hnext hne (by simp) hkey
      rw [Context.reach?_concat, h.reach? hbefore hreach.place?, Option.bind_some]
      exact Context.admitted?_of_joinTarget hjoined
    · exact h.reached other hop hne hother hold
  · rcases Hops.get?_insert_eq_some hfound with ⟨hkey, -⟩ | ⟨-, hold⟩
    · have hsame := Hops.key_injective hother hnext (by simp) (by simp) hkey
      obtain ⟨rfl, -⟩ := List.append_inj' hsame rfl
      exact ⟨place, place?_mono hkeeps hreach.place?, Context.isKnown_of_joinTarget hjoined⟩
    · obtain ⟨there, hthere, hknown⟩ := h.rooted other last hop hother hold
      exact ⟨there, place?_mono hkeeps hthere, hknown⟩

theorem joinPath {path : List String} (hpath : IsPath path) (h : Charted c collection scope.hops)
    (hjoin : (c.joinPath inner collection scope path).Gives k (scope', several) k') :
    Charted c collection scope'.hops :=
  Context.joinPath_keeps (P := fun scope _ => Charted c collection scope.hops)
    (fun hcharted => hcharted.joinStep hpath) h hjoin

end Hops.Charted

end JsonSql
