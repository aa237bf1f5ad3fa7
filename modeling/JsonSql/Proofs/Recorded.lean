import JsonSql.Proofs.Parts

set_option autoImplicit false

/-!
# Joins and their record

Every join of a statement is that of a path which is recorded: it goes by the recorded alias, and
its condition ties it to the place that the path has reached before (`Scope.IsJoinOf`).  No two paths
share an alias.  Single joins keep this (`Scope.Recorded.joinStep`), and so does all of a request.
-/

namespace JsonSql

open JsonSql.Sql

variable {c : Context} {collection : String} {inner several : Bool} {scope scope' : Scope}
  {k k' : Nat}

/-- A join is the one that is recorded for a segment after others: it goes by the alias of the hop,
and is tied to the place that the segments before have led to. -/
def Scope.IsJoinOf (c : Context) (collection : String) (scope : Scope) (before : List String)
    (segment : String) (hop : Hop) (join : Join) : Prop :=
  ∃ place k k', scope.Reaches collection before place ∧
    join.target = ⟨hop.collection, some hop.name⟩ ∧
    (c.joinTarget place segment hop.name (c.link place.collection segment)).Gives k
      (hop.collection, join.condition) k'

/-- The joins of a scope are those that it has recorded, each under an alias of its own. -/
structure Scope.Recorded (c : Context) (collection : String) (scope : Scope) (k : Nat) :
    Prop where
  led : scope.hops.Led c collection k
  distinct : ∀ path path' hop hop', scope.hops.get? path = some hop →
    scope.hops.get? path' = some hop' → hop.name = hop'.name → Hops.key path = Hops.key path'
  joins : ∀ join ∈ scope.query.joins, ∃ before segment hop, IsPath (before ++ [segment]) ∧
    scope.hops.get? (before ++ [segment]) = some hop ∧
    scope.IsJoinOf c collection before segment hop join

namespace Scope.Recorded

theorem ofNil {q : Query} (hjoins : q.joins = []) :
    Scope.Recorded c collection { query := q } k :=
  ⟨.empty k, fun _ _ _ _ hfound => (by cases hfound), fun join hjoin => by
    rw [hjoins] at hjoin
    cases hjoin⟩

theorem mono (h : scope.Recorded c collection k) (hle : k ≤ k') :
    scope.Recorded c collection k' :=
  ⟨h.led.mono hle, h.distinct, h.joins⟩

/-- Other parts of the statement do not matter. -/
theorem congr (h : scope.Recorded c collection k)
    (hjoins : scope'.query.joins = scope.query.joins) (hhops : scope'.hops = scope.hops) :
    scope'.Recorded c collection k := by
  obtain ⟨q, hops⟩ := scope'
  obtain rfl : hops = scope.hops := hhops
  refine ⟨h.led, h.distinct, fun join hjoin => ?_⟩
  have hjoin : join ∈ scope.query.joins := hjoins ▸ hjoin
  obtain ⟨before, segment, hop, hpath, hfound, place, i, j, hreach, htarget, hgives⟩ :=
    h.joins join hjoin
  refine ⟨before, segment, hop, hpath, hfound, place, i, j, ?_, htarget, hgives⟩
  cases hreach with
  | root => exact .root
  | hop hreached => exact .hop hreached

theorem joinStep {path before : List String} {segment target : String} {place : Place}
    {condition : Expr} (hinjective : Function.Injective c.names) (hpath : IsPath path)
    (h : scope.Recorded c collection k)
    (hstep : JoinStep c collection path scope k before segment place target condition scope' k') :
    scope'.Recorded c collection k' := by
  obtain ⟨halong, hreach, hfresh, hjoined, hresult⟩ := hstep
  have hsegment : IsPath (before ++ [segment]) := hpath.ofPrefix halong
  have hold {other : List String} {hop : Hop} (hfound : scope.hops.get? other = some hop) :
      scope'.hops.get? other = some hop := by
    have hkey : Hops.key other ≠ Hops.key (before ++ [segment]) := by
      intro hsame
      rw [Hops.get?, hsame, ← Hops.get?, hfresh] at hfound
      cases hfound
    rw [hresult]
    exact (Hops.get?_insert_of_ne _ hkey _).trans hfound
  have hreaches {other : List String} {there : Place}
      (h : scope.Reaches collection other there) : scope'.Reaches collection other there := by
    cases h with
    | root => exact .root
    | hop hfound => exact .hop (hold hfound)
  have hnew : scope'.hops.get? (before ++ [segment]) = some ⟨c.names k, target⟩ := by
    rw [hresult]
    exact Hops.get?_insert_self _ _ _
  refine ⟨h.led.joinStep hpath ⟨halong, hreach, hfresh, hjoined, hresult⟩, ?_, ?_⟩
  · intro one other hop hop' hone hother hname
    rw [hresult] at hone hother
    rcases Hops.get?_insert_eq_some hone with ⟨hkey, rfl⟩ | ⟨-, hone⟩ <;>
      rcases Hops.get?_insert_eq_some hother with ⟨hkey', rfl⟩ | ⟨-, hother⟩
    · exact hkey.trans hkey'.symm
    · exact absurd hname.symm (h.led.name_ne hinjective hother)
    · exact absurd hname (h.led.name_ne hinjective hone)
    · exact h.distinct one other hop hop' hone hother hname
  · intro join hjoin
    have hjoin : join ∈ scope.query.joins ∨ join = ⟨⟨target, some (c.names k)⟩, condition⟩ := by
      rw [hresult] at hjoin
      exact (List.mem_append.mp hjoin).imp_right List.mem_singleton.mp
    rcases hjoin with hjoin | rfl
    · obtain ⟨before', segment', hop, hpath', hfound, place', i, j, hreach', htarget, hgives⟩ :=
        h.joins join hjoin
      exact ⟨before', segment', hop, hpath', hold hfound, place', i, j, hreaches hreach', htarget,
        hgives⟩
    · exact ⟨before, segment, ⟨c.names k, target⟩, hsegment, hnew, place, k + 1, k',
        hreaches hreach, rfl, hjoined⟩

theorem joinPath {path : List String} (hinjective : Function.Injective c.names)
    (hpath : IsPath path) (h : scope.Recorded c collection k)
    (hjoin : (c.joinPath inner collection scope path).Gives k (scope', several) k') :
    scope'.Recorded c collection k' :=
  Context.joinPath_keeps (P := fun scope k => scope.Recorded c collection k)
    (fun hrecorded => hrecorded.joinStep hinjective hpath) h hjoin

theorem joinFilter {f : Filter} (hinjective : Function.Injective c.names) (hf : f.IsUnfolded)
    (h : scope.Recorded c collection k)
    (hjoin : (c.joinFilter inner collection [] scope f).Gives k (scope', several) k') :
    scope'.Recorded c collection k' :=
  Context.joinFilter_keeps (P := fun scope k => scope.Recorded c collection k)
    (fun hmem hrecorded => hrecorded.joinStep hinjective
      (Context.isPath_of_mem_filterPaths isPath_nil hf _ hmem)) h hjoin

theorem prepares {paths : List (List String)} {start : Scope} {k₀ : Nat}
    (hinjective : Function.Injective c.names) (hpaths : ∀ path ∈ paths, IsPath path)
    (hstart : start.Recorded c collection k₀)
    (h : c.Prepares collection paths start k₀ scope k) : scope.Recorded c collection k := by
  induction h with
  | refl => exact hstart
  | join _ hpath hjoin ih => exact ih.joinPath hinjective (hpaths _ hpath) hjoin
  | @rest scope q _ _ _ hjoins _ hle ih =>
    have hnext : Scope.Recorded c collection { scope with query := q } _ := ih.congr hjoins rfl
    exact hnext.mono hle

end Scope.Recorded

end JsonSql
