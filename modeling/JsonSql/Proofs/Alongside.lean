import JsonSql.Proofs.Attempts
import JsonSql.Proofs.KeyOrder

set_option autoImplicit false

/-!
# A compilation alongside one that has joined more

Two compilations side by side, of which the first one has joined some paths before both of them join
the same ones (`Scope.Alongside`).  Where the first one finds a join, the second one may have to make
it: it takes the alias that the first one has recorded.  So the joins of the second one are among
those of the first one, and every part that both build on the same paths is the same in both.  The
second one reads its aliases from a stream that is put together on the way (`Compile.Trails`): those
of joins that the first one finds, and those that the first one issues at the same point.
-/

namespace JsonSql

open JsonSql.Sql

/-! ## Streams and steps -/

/-- A stream begins with these aliases. -/
def Alias.Begins (names : Nat → String) (aliases : List String) : Prop :=
  ∀ i name, aliases[i]? = some name → names i = name

theorem Alias.exists_begins (aliases : List String) : ∃ names, Begins names aliases :=
  ⟨fun i => aliases[i]?.getD "", fun i name hname => by
    dsimp only
    rw [hname, Option.getD_some]⟩

theorem Alias.Begins.of_append {names : Nat → String} {aliases more : List String}
    (h : Begins names (aliases ++ more)) : Begins names aliases := by
  intro i name hname
  obtain ⟨hi, -⟩ := List.getElem?_eq_some_iff.mp hname
  exact h i name (by rw [List.getElem?_append_left hi, hname])

theorem Alias.Begins.next {names : Nat → String} {aliases : List String} {name : String}
    (h : Begins names (aliases ++ [name])) : names aliases.length = name :=
  h _ name List.getElem?_concat_length

/-- The aliases of a stream from a number on, so many of them. -/
def Alias.stretch (names : Nat → String) (k n : Nat) : List String :=
  (List.range' k n).map names

theorem Alias.length_stretch (names : Nat → String) (k n : Nat) : (stretch names k n).length = n := by
  rw [stretch, List.length_map, List.length_range']

theorem Alias.mem_stretch {names : Nat → String} {k n : Nat} {name : String}
    (h : name ∈ stretch names k n) : ∃ j, k ≤ j ∧ j < k + n ∧ name = names j := by
  obtain ⟨j, hj, rfl⟩ := List.mem_map.mp h
  obtain ⟨i, hi, rfl⟩ := List.mem_range'.mp hj
  exact ⟨k + 1 * i, by omega, by omega, rfl⟩

theorem Alias.Begins.stretch {names names' : Nat → String} {aliases : List String} {k n : Nat}
    (h : Begins names' (aliases ++ Alias.stretch names k n)) :
    ∀ i < n, names' (aliases.length + i) = names (k + i) := by
  intro i hi
  refine h _ _ ?_
  rw [List.getElem?_append_right (Nat.le_add_right _ _), Nat.add_sub_cancel_left, Alias.stretch,
    List.getElem?_map, List.getElem?_range' hi, Option.map_some, Nat.one_mul]

namespace Compile

variable {α β γ δ : Type} {k : Nat} {before : List String} {x : Compile α}
  {y : (Nat → String) → Compile β} {Q : α → Nat → β → List String → Prop}
  {S : γ → Nat → δ → List String → Prop}

/-- Whatever the first step gives, the second one gives something to go with it: there are aliases
to be issued after those before, with which it does so for every stream that begins with them. -/
def Trails (k : Nat) (before : List String) (x : Compile α) (y : (Nat → String) → Compile β)
    (Q : α → Nat → β → List String → Prop) : Prop :=
  ∀ a k', x.Gives k a k' → ∃ b more, Q a k' b (before ++ more) ∧
    ∀ names, Alias.Begins names (before ++ more) →
      (y names).Gives before.length b (before ++ more).length

theorem trails_pure {a : α} {b : β} (h : Q a k b before) :
    Trails k before (pure a) (fun _ => pure b) Q := by
  intro found k' hgives
  obtain ⟨rfl, rfl⟩ := gives_pure.mp hgives
  refine ⟨b, [], by rwa [List.append_nil], fun names _ => ?_⟩
  rw [List.append_nil]
  exact gives_pure.mpr ⟨rfl, rfl⟩

theorem trails_throw {e : QueryError} : Trails k before (throw e) y Q :=
  fun _ _ h => absurd h not_gives_throw

theorem Trails.bind {f : α → Compile γ} {g : (Nat → String) → β → Compile δ}
    (h : Trails k before x y Q)
    (hnext : ∀ a k' b after, Q a k' b after →
      Trails k' after (f a) (fun names => g names b) S) :
    Trails k before (x >>= f) (fun names => y names >>= g names) S := by
  intro c k' hgives
  obtain ⟨a, k₁, ha, hc⟩ := gives_bind.mp hgives
  obtain ⟨b, more, hQ, hy⟩ := h a k₁ ha
  obtain ⟨d, others, hS, hg⟩ := hnext a k₁ b _ hQ c k' hc
  rw [List.append_assoc] at hS hg
  refine ⟨d, more ++ others, hS, fun names hnames => gives_bind.mpr ⟨b, _, ?_, hg names hnames⟩⟩
  exact hy names (List.append_assoc .. ▸ hnames).of_append

theorem Trails.mono {R : α → Nat → β → List String → Prop} (h : Trails k before x y Q)
    (hnext : ∀ a k' b after, Q a k' b after → R a k' b after) : Trails k before x y R := by
  intro a k' hgives
  obtain ⟨b, more, hQ, hy⟩ := h a k' hgives
  exact ⟨b, more, hnext a k' b _ hQ, hy⟩

theorem Trails.map {f : α → γ} {g : β → δ} (h : Trails k before x y Q)
    (hnext : ∀ a k' b after, Q a k' b after → S (f a) k' (g b) after) :
    Trails k before (f <$> x) (fun names => g <$> y names) S := by
  simp only [← bind_pure_comp]
  exact h.bind fun a k' b after hQ => trails_pure (hnext a k' b after hQ)

/-- A step that the first compilation makes alone. -/
theorem Trails.ahead {f : α → Compile γ} {z : (Nat → String) → Compile δ}
    (h : ∀ a k', x.Gives k a k' → Trails k' before (f a) z S) :
    Trails k before (x >>= f) z S := by
  intro c k' hgives
  obtain ⟨a, k₁, ha, hc⟩ := gives_bind.mp hgives
  exact h a k₁ ha c k' hc

/-- A step that the second compilation makes alone. -/
theorem Trails.alone {z : (Nat → String) → Compile γ} {g : (Nat → String) → γ → Compile β} {c : γ}
    {more : List String}
    (hfirst : ∀ names, Alias.Begins names (before ++ more) →
      (z names).Gives before.length c (before ++ more).length)
    (h : Trails k (before ++ more) x (fun names => g names c) Q) :
    Trails k before x (fun names => z names >>= g names) Q := by
  intro a k' hgives
  obtain ⟨b, others, hQ, hg⟩ := h a k' hgives
  rw [List.append_assoc] at hQ hg
  refine ⟨b, more ++ others, hQ, fun names hnames => gives_bind.mpr ⟨c, _, ?_, hg names hnames⟩⟩
  exact hfirst names (List.append_assoc .. ▸ hnames).of_append

/-- A step that the second compilation makes alone, and that issues no alias. -/
theorem Trails.still {z : (Nat → String) → Compile γ} {g : (Nat → String) → γ → Compile β} {c : γ}
    (hfirst : ∀ names, (z names).Gives before.length c before.length)
    (h : Trails k before x (fun names => g names c) Q) :
    Trails k before x (fun names => z names >>= g names) Q := by
  have hnone : Trails k (before ++ []) x (fun names => g names c) Q := by rwa [List.append_nil]
  refine Trails.alone (fun names _ => ?_) hnone
  rw [List.append_nil]
  exact hfirst names

/-- The second compilation makes something else of its result. -/
theorem Trails.then_pure {g : β → δ} {S : α → Nat → δ → List String → Prop}
    (h : Trails k before x y Q)
    (hnext : ∀ a k' b after, Q a k' b after → S a k' (g b) after) :
    Trails k before x (fun names => y names >>= fun b => pure (g b)) S := by
  intro a k' hgives
  obtain ⟨b, more, hQ, hy⟩ := h a k' hgives
  exact ⟨g b, more, hnext a k' b _ hQ, fun names hnames =>
    gives_bind.mpr ⟨b, _, hy names hnames, gives_pure.mpr ⟨rfl, rfl⟩⟩⟩

/-- A step that the second compilation makes in the same way issues the same aliases. -/
theorem Trails.of_echoes {names : Nat → String} {y : (Nat → String) → Compile α}
    {Q : α → Nat → α → List String → Prop} (h : ∀ names', Echoes names names' x (y names'))
    (hnext : ∀ a n, Q a (k + n) a (before ++ Alias.stretch names k n)) :
    Trails k before x y Q := by
  intro a k' hgives
  obtain ⟨n, rfl, -⟩ := h names k a k' hgives
  refine ⟨a, Alias.stretch names k n, hnext a n, fun names' hnames' => ?_⟩
  obtain ⟨m, hm, hy⟩ := h names' k a (k + n) hgives
  obtain rfl := Nat.add_left_cancel hm
  rw [List.length_append, Alias.length_stretch]
  exact hy _ hnames'.stretch

/-- What steps for each item of a list keep, from item to item. -/
theorem trails_foldlM {ι : Type} {f : α → ι → Compile α}
    {g : (Nat → String) → β → ι → Compile β}
    {P : List ι → α → Nat → β → List String → Prop}
    (step : ∀ done item a k b before, P done a k b before →
      Trails k before (f a item) (fun names => g names b item) (P (done ++ [item])))
    {items : List ι} {a : α} {b : β} (h : P [] a k b before) :
    Trails k before (items.foldlM f a) (fun names => items.foldlM (g names) b) (P items) := by
  have hbuilds : ∀ {items done : List ι} {a : α} {b : β} {k : Nat} {before : List String},
      P done a k b before → Trails k before (items.foldlM f a)
        (fun names => items.foldlM (g names) b) (P (done ++ items)) := by
    intro items
    induction items with
    | nil =>
      intro done a b k before hP
      rw [List.append_nil]
      exact trails_pure hP
    | cons item rest ih =>
      intro done a b k before hP
      simp only [List.foldlM_cons]
      refine (step done item a k b before hP).bind fun a' k' b' after hP' => ?_
      rw [List.append_cons]
      exact ih hP'
  exact hbuilds h

/-- Steps for each item of a list, which keep an invariant, with the results item by item. -/
theorem trails_mapM {ι : Type} {f : ι → Compile α} {g : (Nat → String) → ι → Compile β}
    {I : Nat → List String → Prop} {R : α → β → Prop} {items : List ι}
    (step : ∀ item ∈ items, ∀ k before, I k before → Trails k before (f item)
      (fun names => g names item) fun a k' b after => I k' after ∧ R a b) (h : I k before) :
    Trails k before (items.mapM f) (fun names => items.mapM (g names))
      fun as k' bs after => I k' after ∧ List.Forall₂ R as bs := by
  induction items generalizing k before with
  | nil => exact trails_pure ⟨h, .nil⟩
  | cons item rest ih =>
    simp only [List.mapM_cons]
    refine (step item List.mem_cons_self k before h).bind fun a k' b after ⟨hI, hR⟩ => ?_
    refine (ih (fun other hmem => step other (List.mem_cons_of_mem _ hmem)) hI).bind
      fun as k' bs after ⟨hI, hRs⟩ => ?_
    exact trails_pure ⟨hI, .cons hR hRs⟩

end Compile

open Compile (Steady steady_pure steady_throw Trails trails_pure trails_throw trails_foldlM
  trails_mapM)

/-! ## Statements side by side -/

/-- A path leads to one place. -/
theorem Scope.Reaches.unique {collection : String} {scope : Scope} {before : List String}
    {place place' : Place} (h : scope.Reaches collection before place)
    (h' : scope.Reaches collection before place') : place = place' := by
  generalize hpath : before = path at h'
  cases h with
  | root =>
    cases h' with
    | root => rfl
    | hop _ => exact absurd hpath (by simp)
  | hop hfound =>
    cases h' with
    | root => exact absurd hpath (by simp)
    | hop hfound' =>
      rw [← hpath, hfound] at hfound'
      rw [Option.some.inj hfound']

/-- A statement under construction alongside another one, which has joined all that the first one
has, under the same aliases, and differs but for that in its ordering at most.  The first one has
issued these aliases, all of them aliases of the other one; none of them stands for a join that is
still to be made. -/
structure Scope.Alongside (c : Context) (collection : String) (scope : Scope) (k : Nat)
    (scope' : Scope) (aliases : List String) : Prop where
  recorded : scope.Recorded c collection k
  prefixes : ∃ prefixes, scope.MatchesPrefixes c false collection prefixes
  kept : Context.Keeps scope'.hops scope.hops
  query : scope'.query = { scope.query with joins := scope'.query.joins, orders := [] }
  joins : scope'.query.joins ⊆ scope.query.joins
  nodup : aliases.Nodup
  issued : ∀ name ∈ aliases, ∃ j < k, name = c.names j
  pending : ∀ path hop, scope.hops.get? path = some hop → scope'.hops.get? path = none →
    hop.name ∉ aliases

namespace Scope.Alongside

variable {c : Context} {collection : String} {scope scope' : Scope} {k : Nat}
  {aliases : List String}

/-- What the second statement has not joined at all is new to the first one. -/
theorem fresh (h : scope.Alongside c collection k scope' aliases) {path : List String}
    (hnew : scope.hops.get? path = none) : scope'.hops.get? path = none := by
  cases hfound : scope'.hops.get? path with
  | none => rfl
  | some hop =>
    rw [h.kept _ _ hfound] at hnew
    cases hnew

/-- Both issue the same aliases. -/
theorem issue (hinjective : Function.Injective c.names)
    (h : scope.Alongside c collection k scope' aliases) (n : Nat) :
    scope.Alongside c collection (k + n) scope' (aliases ++ Alias.stretch c.names k n) := by
  have hnumbered : ∀ name ∈ aliases, name ∉ Alias.stretch c.names k n := by
    intro name hname hmem
    obtain ⟨i, hi, rfl⟩ := h.issued name hname
    obtain ⟨j, hj, -, hsame⟩ := Alias.mem_stretch hmem
    exact absurd (hinjective hsame) (Nat.ne_of_lt (Nat.lt_of_lt_of_le hi hj))
  refine ⟨h.recorded.mono (Nat.le_add_right k n), h.prefixes, h.kept, h.query, h.joins,
    List.nodup_append.mpr ⟨h.nodup, (List.nodup_range').map hinjective, ?_⟩, ?_, ?_⟩
  · rintro name hname other hother rfl
    exact hnumbered name hname hother
  · intro name hname
    rcases List.mem_append.mp hname with hname | hname
    · obtain ⟨j, hj, rfl⟩ := h.issued name hname
      exact ⟨j, Nat.lt_add_right n hj, rfl⟩
    · obtain ⟨j, -, hj, rfl⟩ := Alias.mem_stretch hname
      exact ⟨j, hj, rfl⟩
  · intro path hop hfound hnone hmem
    rcases List.mem_append.mp hmem with hmem | hmem
    · exact h.pending path hop hfound hnone hmem
    · obtain ⟨i, hi, hname⟩ := h.recorded.led.issued path hop hfound
      obtain ⟨j, hj, -, hsame⟩ := Alias.mem_stretch hmem
      exact absurd (hinjective (hname.symm.trans hsame)) (Nat.ne_of_lt (Nat.lt_of_lt_of_le hi hj))

/-- A segment for which a join is recorded is one that is joined, to where its link leads. -/
theorem joined (h : scope.Alongside c collection k scope' aliases) {before : List String}
    {segment : String} {place : Place} {hop : Hop} (hpath : IsPath (before ++ [segment]))
    (hreached : c.HasReached false collection before place)
    (hfound : scope.hops.get? (before ++ [segment]) = some hop) :
    Context.isJoined false place (c.link place.collection segment) = true ∧
      (c.link place.collection segment).target? = some hop.collection := by
  obtain ⟨prefixes, walked, hmatches⟩ := h.prefixes
  have htarget := hmatches.target _ (hmatches.mem_of_get? hpath (by simp) hfound)
  rw [hreached.joinedTarget?, Context.joinedTarget?] at htarget
  split at htarget
  · next hjoined => exact ⟨hjoined, htarget⟩
  · cases htarget

/-- The same is put into both statements. -/
theorem replace (h : scope.Alongside c collection k scope' aliases) {q q' : Query}
    (hjoins : q.joins = scope.query.joins) (hjoins' : q'.joins = scope'.query.joins)
    (hquery : q' = { q with joins := q'.joins, orders := [] }) :
    Scope.Alongside c collection { scope with query := q } k { scope' with query := q' }
      aliases := by
  obtain ⟨prefixes, walked, hmatches⟩ := h.prefixes
  refine ⟨h.recorded.congr hjoins rfl, ⟨prefixes, walked, ?_⟩, h.kept, hquery, ?_, h.nodup, h.issued,
    h.pending⟩
  · dsimp only
    rwa [hjoins]
  · dsimp only
    rw [hjoins, hjoins']
    exact h.joins

/-- The second statement gets a join that the first one has, under the same alias. -/
theorem insert {path : List String} {hop : Hop} {later : Scope} {join : Join} {k' : Nat}
    (h : scope.Alongside c collection k scope' aliases) (hrecorded : later.Recorded c collection k')
    (hprefixes : ∃ prefixes, later.MatchesPrefixes c false collection prefixes) (hle : k ≤ k')
    (hgrows : scope.Grows later) (hfound : later.hops.get? path = some hop)
    (hold : ∀ other found, later.hops.get? other = some found →
      Hops.key other ≠ Hops.key path → scope.hops.get? other = some found)
    (hname : hop.name ∉ aliases)
    (hjoin : join ∈ later.query.joins) :
    later.Alongside c collection k' {
      query := { scope'.query with joins := scope'.query.joins ++ [join] }
      hops := scope'.hops.insert path hop } (aliases ++ [hop.name]) := by
  refine ⟨hrecorded, hprefixes, ?_, ?_, ?_, ?_, ?_, ?_⟩
  · intro other found hother
    rcases Hops.get?_insert_eq_some hother with ⟨hkey, rfl⟩ | ⟨-, hother⟩
    · rw [Hops.get?, hkey, ← Hops.get?]
      exact hfound
    · exact hgrows.record _ _ (h.kept _ _ hother)
  · have hrest := hgrows.rest
    rw [Context.sameButJoins] at hrest
    dsimp only
    rw [h.query, hrest]
  · intro other hother
    rcases List.mem_append.mp hother with hother | hother
    · exact hgrows.joins.subset (h.joins hother)
    · rw [List.mem_singleton.mp hother]
      exact hjoin
  · rw [List.nodup_append]
    refine ⟨h.nodup, List.nodup_singleton _, ?_⟩
    rintro name hmem other hother rfl
    rw [List.mem_singleton] at hother
    exact hname (hother ▸ hmem)
  · intro name hmem
    rcases List.mem_append.mp hmem with hmem | hmem
    · obtain ⟨j, hj, rfl⟩ := h.issued name hmem
      exact ⟨j, Nat.lt_of_lt_of_le hj hle, rfl⟩
    · rw [List.mem_singleton.mp hmem]
      exact hrecorded.led.issued path hop hfound
  · intro other found hother hnone hmem
    have hkey : Hops.key other ≠ Hops.key path := by
      intro hkey
      rw [Hops.get?, hkey, ← Hops.get?, Hops.get?_insert_self] at hnone
      cases hnone
    rw [Hops.get?_insert_of_ne _ hkey] at hnone
    rcases List.mem_append.mp hmem with hmem | hmem
    · exact h.pending other found (hold other found hother hkey) hnone hmem
    · exact hkey (hrecorded.distinct _ _ _ _ hother hfound (List.mem_singleton.mp hmem))

end Scope.Alongside

namespace Context

variable {s : Schema} {options : Options} {names : Nat → String} {collection : String}
  {scope scope' : Scope} {k : Nat} {aliases : List String}

/-! ## Joins -/

/-- What is new to both statements both join, under the same alias. -/
theorem trails_join {path before : List String} {segment : String} {place : Place}
    (hinjective : Function.Injective names) (hpath : IsPath path)
    (halong : before ++ [segment] <+: path.dropLast)
    (hreached : (s.context options names).HasReached false collection before place)
    (hreach : scope.Reaches collection before place)
    (hnew : scope.hops.get? (before ++ [segment]) = none)
    (hjoined : isJoined false place ((s.context options names).link place.collection segment))
    (h : scope.Alongside (s.context options names) collection k scope' aliases) :
    Trails k aliases
      ((s.context options names).join scope (before ++ [segment]) place segment
        ((s.context options names).link place.collection segment))
      (fun names' => (s.context options names').join scope' (before ++ [segment]) place segment
        ((s.context options names).link place.collection segment))
      fun joined k' joined' after =>
        joined.1.Alongside (s.context options names) collection k' joined'.1 after ∧
          joined'.2 = joined.2 ∧ joined.1.hops.get? (before ++ [segment]) = some joined.2 ∧
          ((s.context options names).link place.collection segment).target? =
            some joined.2.collection := by
  intro ⟨scope₁, hop⟩ k' hjoin
  obtain ⟨target, condition, htarget, rfl, rfl⟩ := join_gives hjoin
  have hlink := target?_of_joinTarget htarget
  obtain ⟨rfl, hsteady⟩ := steady_joinTarget _ _ _ _ _ _ _ _ htarget
  have hthere : (s.context options names).prefixTarget? false collection (before ++ [segment]) =
      some target := by
    rw [hreached.joinedTarget?, joinedTarget?, if_pos hjoined]
    exact hlink
  have hname : names k ∉ aliases := by
    intro hmem
    obtain ⟨j, hj, hsame⟩ := h.issued _ hmem
    exact absurd (hinjective hsame) (Nat.ne_of_gt hj)
  refine ⟨({ query := scope'.query.addJoin ⟨target, some (names k)⟩ condition
             hops := scope'.hops.insert (before ++ [segment]) ⟨names k, target⟩ },
    ⟨names k, target⟩), [names k], ⟨?_, rfl, Hops.get?_insert_self _ _ _, hlink⟩,
    fun names' hnames' => ?_⟩
  · refine h.insert (h.recorded.joinStep hinjective hpath ⟨halong, hreach, hnew, htarget, rfl⟩) ?_
      (Nat.le_succ k) (.join hnew hjoin) (Hops.get?_insert_self _ _ _) ?_ hname
      (List.mem_append_right _ (List.mem_singleton_self _))
    · obtain ⟨prefixes, walked, hmatches⟩ := h.prefixes
      exact ⟨_, _, hmatches.insert (hpath.ofPrefix halong) hnew hthere⟩
    · intro other found hother hkey
      rwa [Hops.get?_insert_of_ne _ hkey] at hother
  · simp only [join, Compile.gives_bind, freshAlias_gives, Compile.gives_pure]
    exact ⟨names k, aliases.length + 1, ⟨hnames'.next.symm, rfl⟩, (target, condition), _,
      hsteady _, rfl, List.length_append⟩

/-- What the first statement has joined before, the second one joins under the same alias. -/
theorem exists_join_pending {before : List String} {segment : String} {place : Place} {hop : Hop}
    (hpath : IsPath (before ++ [segment])) (hreach : scope.Reaches collection before place)
    (hfound : scope.hops.get? (before ++ [segment]) = some hop)
    (hnone : scope'.hops.get? (before ++ [segment]) = none)
    (h : scope.Alongside (s.context options names) collection k scope' aliases) :
    ∃ joined, scope.Alongside (s.context options names) collection k joined
        (aliases ++ [hop.name]) ∧
      ∀ names', Alias.Begins names' (aliases ++ [hop.name]) →
        ((s.context options names').join scope' (before ++ [segment]) place segment
          ((s.context options names).link place.collection segment)).Gives aliases.length
            (joined, hop) (aliases ++ [hop.name]).length := by
  obtain ⟨prefixes, hprefixes⟩ := h.prefixes
  obtain ⟨⟨target, condition⟩, hjoin, there, i, j, hthere, htarget, hgives⟩ :=
    h.recorded.exists_join hprefixes hpath hfound
  obtain rfl := hreach.unique hthere
  obtain rfl : target = ⟨hop.collection, some hop.name⟩ := htarget
  have hsteady := (steady_joinTarget _ _ _ _ _ _ _ _ hgives).2
  refine ⟨_, h.insert h.recorded h.prefixes (Nat.le_refl k) (.refl scope) hfound
    (fun other found hother _ => hother) (h.pending _ _ hfound hnone) hjoin,
    fun names' hnames' => ?_⟩
  simp only [Context.join, Compile.gives_bind, freshAlias_gives, Compile.gives_pure]
  exact ⟨hop.name, aliases.length + 1, ⟨hnames'.next.symm, rfl⟩, (hop.collection, condition), _,
    hsteady _, rfl, List.length_append⟩

/-- Both statements join along the segments of a path.  The second one makes the joins that the
first one finds, if it has not made them yet. -/
theorem trails_joinFrom (hinjective : Function.Injective names) {path : List String}
    (hpath : IsPath path) {segments : List String} :
    ∀ {before : List String} {place : Place} {scope scope' : Scope} {k : Nat}
      {aliases : List String}, before ++ segments = path →
      (s.context options names).HasReached false collection before place →
      scope.Reaches collection before place →
      scope.Alongside (s.context options names) collection k scope' aliases →
      Trails k aliases
        ((s.context options names).joinFrom false place before scope segments)
        (fun names' => (s.context options names').joinFrom false place before scope' segments)
        fun joined k' joined' after =>
          joined.1.Alongside (s.context options names) collection k' joined'.1 after := by
  induction segments with
  | nil => exact fun _ _ _ h => trails_pure h
  | cons segment segments ih =>
    intro before place scope scope' k aliases hwhole hreached hreach h
    cases segments with
    | nil => exact trails_pure h
    | cons next rest =>
      have hlink (names' : Nat → String) : (s.context options names').link place.collection segment =
          (s.context options names).link place.collection segment := rfl
      have hnext : (before ++ [segment]) ++ next :: rest = path := by
        rw [← hwhole, List.append_assoc, List.singleton_append]
      have halong : before ++ [segment] <+: path.dropLast := by
        rw [← hnext, List.dropLast_append_of_ne_nil (List.cons_ne_nil next rest)]
        exact List.prefix_append _ _
      have hsegment := hpath.ofPrefix halong
      simp only [joinFrom_cons, hlink]
      by_cases hnone : (s.context options names).link place.collection segment = .none
      · simp only [if_pos hnone]
        exact trails_pure h
      simp only [if_neg hnone]
      cases hfound : scope.hops.get? (before ++ [segment]) with
      | some hop =>
        obtain ⟨hjoined, htarget⟩ := h.joined hsegment hreached hfound
        cases hfound' : scope'.hops.get? (before ++ [segment]) with
        | some hop' =>
          -- both find the join
          obtain rfl := Option.some.inj (hfound.symm.trans (h.kept _ _ hfound'))
          dsimp only
          split
          · next hleads => exact ih hnext (hreached.next hleads htarget) (.hop hfound) h
          · exact trails_pure h
        | none =>
          -- the first one finds it, and the second one makes it
          obtain ⟨joined, hnew, hjoin⟩ := exists_join_pending hsegment hreach hfound hfound' h
          dsimp only
          simp only [if_pos hjoined]
          refine Trails.alone hjoin ?_
          dsimp only
          split
          · next hleads =>
            exact (ih hnext (hreached.next hleads htarget) (.hop hfound) hnew).then_pure
              fun last k' last' after hlast => hlast
          · exact trails_pure hnew
      | none =>
        -- both of them make it
        rw [h.fresh hfound]
        dsimp only
        split
        · next hjoined =>
          refine (trails_join hinjective hpath halong hreached hreach hfound hjoined h).bind
            fun ⟨joined, hop⟩ k' ⟨joined', hop'⟩ after ⟨hboth, hsame, hhop, htarget⟩ => ?_
          dsimp only at hboth hsame hhop htarget ⊢
          subst hsame
          split
          · next hleads =>
            exact (ih hnext (hreached.next hleads htarget) (.hop hhop) hboth).bind
              fun last k' last' after hlast => trails_pure hlast
          · exact trails_pure hboth
        · exact trails_pure h

end Context

/-! ## Parts on the same paths -/

/-- A statement alongside another one that has joined some paths earlier, after both have joined the
same ones. -/
structure Scope.Follows (c : Context) (collection : String) (earlier paths : List (List String))
    (scope : Scope) (k : Nat) (scope' : Scope) (aliases : List String) : Prop
    extends scope.Alongside c collection k scope' aliases where
  along : c.JoinsAlong false collection (earlier ++ paths) scope
  along' : c.JoinsAlong false collection paths scope'

namespace Scope.Follows

variable {c : Context} {collection : String} {earlier paths : List (List String)}
  {scope scope' : Scope} {k : Nat} {aliases : List String}

/-- The same is put into both statements. -/
theorem replace (h : scope.Follows c collection earlier paths k scope' aliases) {q q' : Query}
    (hjoins : q.joins = scope.query.joins) (hjoins' : q'.joins = scope'.query.joins)
    (hquery : q' = { q with joins := q'.joins, orders := [] }) :
    Scope.Follows c collection earlier paths { scope with query := q } k
      { scope' with query := q' } aliases := by
  refine ⟨h.toAlongside.replace hjoins hjoins' hquery, ?_, ?_⟩
  · obtain ⟨walked, hmatches⟩ := h.along
    refine ⟨walked, ?_⟩
    dsimp only
    rwa [hjoins]
  · obtain ⟨walked, hmatches⟩ := h.along'
    refine ⟨walked, ?_⟩
    dsimp only
    rwa [hjoins']

theorem addCondition (h : scope.Follows c collection earlier paths k scope' aliases) (e : Expr) :
    Scope.Follows c collection earlier paths { scope with query := scope.query.addCondition e } k
      { scope' with query := scope'.query.addCondition e } aliases := by
  refine h.replace rfl rfl ?_
  rw [h.query]
  rfl

theorem issue (hinjective : Function.Injective c.names)
    (h : scope.Follows c collection earlier paths k scope' aliases) (n : Nat) :
    scope.Follows c collection earlier paths (k + n) scope' (aliases ++ Alias.stretch c.names k n) :=
  ⟨h.toAlongside.issue hinjective n, h.along, h.along'⟩

/-- Both statements have the same join, if any, for a prefix that is joined again if it was joined
earlier. -/
theorem get?_eq (h : scope.Follows c collection earlier paths k scope' aliases)
    {path : List String} (hpath : IsPath path) (hne : path ≠ [])
    (hagain : c.JoinsPrefix false collection (earlier ++ paths) path →
      c.JoinsPrefix false collection paths path) :
    scope'.hops.get? path = scope.hops.get? path := by
  cases hfound : scope.hops.get? path with
  | none => exact h.fresh hfound
  | some hop =>
    obtain ⟨hop', hfound'⟩ := Option.isSome_iff_exists.mp
      ((h.along'.isSome_get?_iff hpath hne).mpr (hagain (h.along.of_get? hpath hne hfound).1))
    rw [hfound', ← h.kept _ _ hfound', hfound]

/-- Both statements have the same join for the parents of a path that both have joined. -/
theorem get?_parents (h : scope.Follows c collection earlier paths k scope' aliases)
    {path : List String} (hmem : path ∈ paths) (hpath : IsPath path) (hne : path.dropLast ≠ []) :
    scope'.hops.get? path.dropLast = scope.hops.get? path.dropLast := by
  refine h.get?_eq (fun segment hsegment => hpath segment (List.dropLast_subset _ hsegment)) hne ?_
  rintro ⟨-, -, -, hjoined⟩
  exact ⟨path, hmem, List.prefix_rfl, hjoined⟩

/-- Nor do they differ in the join of the blank path, which stands for no parents, if it is joined
again. -/
theorem get?_nil (h : scope.Follows c collection earlier paths k scope' aliases)
    (hblank : c.JoinsPrefix false collection earlier [""] →
      c.JoinsPrefix false collection paths [""]) :
    scope'.hops.get? [] = scope.hops.get? [] := by
  have hkey : scope'.hops.get? [""] = scope.hops.get? [""] := by
    refine h.get?_eq (by unfold IsPath IsSegment; decide) (by simp) fun hjoined => ?_
    exact (Context.joinsPrefix_append.mp hjoined).elim hblank id
  exact hkey

end Scope.Follows

namespace Context

variable {s : Schema} {options : Options} {names : Nat → String} {collection : String}
  {earlier paths : List (List String)} {scope scope' : Scope} {k : Nat} {aliases : List String}

theorem trails_joinPath (hinjective : Function.Injective names) {path : List String}
    (hpath : IsPath path)
    (h : scope.Follows (s.context options names) collection earlier paths k scope' aliases) :
    Trails k aliases
      ((s.context options names).joinPath false collection scope path)
      (fun names' => (s.context options names').joinPath false collection scope' path)
      fun joined k' joined' after => joined.1.Follows (s.context options names) collection earlier
        (paths ++ [path]) k' joined'.1 after := by
  intro joined k' hjoin
  obtain ⟨joined', more, halongside, hjoin'⟩ :=
    trails_joinFrom hinjective hpath rfl .root .root h.toAlongside joined k' hjoin
  refine ⟨joined', more, ⟨halongside, ?_, ?_⟩, hjoin'⟩
  · rw [← List.append_assoc]
    exact joinsAlong_joinPath hpath h.along hjoin
  · obtain ⟨names', hnames'⟩ := Alias.exists_begins (aliases ++ more)
    exact (joinsAlong_joinPath hpath h.along'.respelled (hjoin' names' hnames')).respelled

theorem trails_joinPaths (hinjective : Function.Injective names) {others : List (List String)} :
    ∀ {paths : List (List String)} {scope scope' : Scope} {k : Nat} {aliases : List String},
      (∀ path ∈ others, IsPath path) →
      scope.Follows (s.context options names) collection earlier paths k scope' aliases →
      Trails k aliases
        ((s.context options names).joinPaths false collection scope others)
        (fun names' => (s.context options names').joinPaths false collection scope' others)
        fun joined k' joined' after => joined.1.Follows (s.context options names) collection
          earlier (paths ++ others) k' joined'.1 after := by
  induction others with
  | nil =>
    intro paths scope scope' k aliases _ h
    rw [List.append_nil]
    exact trails_pure h
  | cons path rest ih =>
    intro paths scope scope' k aliases hpaths h
    simp only [joinPaths]
    rw [List.append_cons]
    refine (trails_joinPath hinjective (hpaths path List.mem_cons_self) h).bind
      fun joined k' joined' after hfirst => ?_
    exact (ih (fun p hp => hpaths p (List.mem_cons_of_mem _ hp)) hfirst).bind
      fun last k' last' after hlast => trails_pure hlast

/-- Both statements read the same column at the end of a path that both have joined. -/
theorem trails_column (hinjective : Function.Injective names) {path : List String}
    (hmem : path ∈ paths) (hpath : IsPath path)
    (h : scope.Follows (s.context options names) collection earlier paths k scope' aliases) :
    Trails k aliases
      ((s.context options names).column scope.hops collection path)
      (fun names' => (s.context options names').column scope'.hops collection path)
      fun column k' column' after => scope.Follows (s.context options names) collection earlier
        paths k' scope' after ∧ column' = column :=
  Trails.of_echoes (fun _ => echoes_column (h.get?_parents hmem hpath))
    fun _ n => ⟨h.issue hinjective n, rfl⟩

theorem trails_joinedColumn (hinjective : Function.Injective names) (key : String)
    (h : scope.Follows (s.context options names) collection earlier paths k scope' aliases) :
    Trails k aliases
      ((s.context options names).joinedColumn collection scope key)
      (fun names' => (s.context options names').joinedColumn collection scope' key)
      fun found k' found' after => found.1.Follows (s.context options names) collection earlier
        (paths ++ [fieldPath key]) k' found'.1 after ∧ found'.2 = found.2 := by
  unfold joinedColumn
  refine (trails_joinPath hinjective (isPath_fieldPath key) h).bind
    fun joined k' joined' after hjoined => ?_
  exact (trails_column hinjective (List.mem_append_right _ (List.mem_singleton_self _))
    (isPath_fieldPath key) hjoined).bind fun column k' column' after ⟨hcolumn, hsame⟩ =>
      trails_pure ⟨hcolumn, hsame⟩

/-! ## Stages -/

theorem trails_groupBy (hinjective : Function.Injective names) (key : String)
    (h : scope.Follows (s.context options names) collection earlier paths k scope' aliases) :
    Trails k aliases
      ((s.context options names).groupBy collection scope key)
      (fun names' => (s.context options names').groupBy collection scope' key)
      fun grouped k' grouped' after => grouped.Follows (s.context options names) collection earlier
        (paths ++ [fieldPath key]) k' grouped' after := by
  unfold groupBy
  refine (trails_joinedColumn hinjective key h).bind
    fun ⟨joined, column⟩ k' ⟨joined', column'⟩ after ⟨hjoined, hsame⟩ => ?_
  dsimp only at hjoined hsame ⊢
  subst hsame
  have hquery := hjoined.query
  refine trails_pure (hjoined.replace rfl rfl ?_)
  rw [hquery]
  rfl

theorem steady_ask {α : Type} (answer : Except SchemaError α) : Steady (ask answer) := by
  cases answer with
  | error e => exact steady_throw _
  | ok a => exact steady_pure a

theorem trails_searchStage {r : Request} (hinjective : Function.Injective names)
    (h : scope.Follows (s.context options names) collection earlier paths k scope' aliases) :
    Trails k aliases
      ((s.context options names).searchStage collection r scope)
      (fun names' => (s.context options names').searchStage collection r scope')
      fun found k' found' after => found.Follows (s.context options names) collection earlier
        paths k' found' after := by
  unfold searchStage
  cases r.search with
  | none => exact trails_pure h
  | some term =>
    unfold search
    simp only [map_bind, map_pure]
    refine Trails.bind (Q := fun fields k' fields' after => scope.Follows (s.context options names)
        collection earlier paths k' scope' after ∧ fields' = fields)
      (.of_echoes (fun _ => (steady_ask (s.provider.fields collection)).echoes)
        fun fields n => ⟨h.issue hinjective n, rfl⟩) fun fields k' fields' after ⟨hissued, hsame⟩ => ?_
    subst hsame
    exact trails_pure (hissued.addCondition _)

/-- Both statements get the same condition from a filter. -/
theorem trails_filterStage {r : Request} (hinjective : Function.Injective names)
    (hblank : (s.context options names).JoinsPrefix false collection earlier [""] →
      (s.context options names).JoinsPrefix false collection
        (paths ++ (s.context options names).requestPaths collection r) [""])
    (h : scope.Follows (s.context options names) collection earlier paths k scope' aliases) :
    Trails k aliases
      ((s.context options names).filterStage collection false r scope)
      (fun names' => (s.context options names').filterStage collection false r scope')
      fun found k' found' after => found.1.Follows (s.context options names) collection earlier
        (paths ++ (s.context options names).requestPaths collection r) k' found'.1 after := by
  unfold filterStage
  unfold requestPaths at hblank ⊢
  cases hfilter : r.filter with
  | none =>
    rw [Option.toList_none, List.flatMap_nil, List.append_nil]
    exact trails_pure h
  | some f =>
    rw [hfilter, Option.toList_some, List.flatMap_singleton] at hblank
    rw [Option.toList_some, List.flatMap_singleton]
    have hpaths (names' : Nat → String) :
        (s.context options names').filterPaths collection [] f.unfolded =
          (s.context options names).filterPaths collection [] f.unfolded :=
      filterPaths_congr (s.relations_context options options names' names) _ _ _
    have hwalked : ∀ path ∈ (s.context options names).filterPaths collection [] f.unfolded,
        IsPath path := isPath_of_mem_filterPaths isPath_nil (isUnfolded_unfolded f)
    simp only [restrict_eq, addFilter, restricted, joinFilter_eq, hpaths]
    refine (trails_joinPaths hinjective hwalked h).bind
      fun found k' found' after hjoined => ?_
    obtain ⟨joined, several⟩ := found
    obtain ⟨joined', several'⟩ := found'
    dsimp only at hjoined ⊢
    refine Trails.bind (Q := fun e? k' e'? after => joined.Follows (s.context options names)
        collection earlier (paths ++ (s.context options names).filterPaths collection []
          f.unfolded) k' joined' after ∧ e'? = e?)
      (.of_echoes (fun _ => echoes_condition? collection [] f.unfolded fun path hpath => ?_)
        fun e? n => ⟨hjoined.issue hinjective n, rfl⟩) fun e? k' e'? after hboth => ?_
    · by_cases hparents : path.dropLast = []
      · rw [hparents]
        exact hjoined.get?_nil hblank
      · exact hjoined.get?_parents (List.mem_append_right _ hpath) (hwalked path hpath) hparents
    · obtain ⟨hissued, rfl⟩ := hboth
      cases e'? with
      | none => exact trails_pure hissued
      | some e => exact trails_pure (hissued.addCondition e)

end Context
end JsonSql
