import JsonSql.Proofs.Echoes
import JsonSql.Proofs.Reordered
import JsonSql.Proofs.Spelling
import JsonSql.Proofs.WholeRows

set_option autoImplicit false

/-!
# The order of keys

The order of the keys of a filter, of the filters of a group and of the operators of a field carries
no meaning: with the filter reordered a request compiles or not as before, to a statement with the
same joins under other aliases and in another order, and with a condition that has the same truth
value on the same rows (`apply_reordered`).
-/

namespace JsonSql

open JsonSql.Sql

/-! ## The same joins under other names -/

/-- Two statements on a collection have the same joins, in any order: with the aliases of the first
one renamed, which stay apart from one another and from the collection, they are those of the second
one. -/
structure Sql.Query.JoinsAlike (collection : String) (rename : String → String) (q q' : Query) :
    Prop where
  root : rename collection = collection
  apart : Set.InjOn rename {name | name ∈ collection :: joinNames q.joins}
  joins : (q.joins.map (Join.relabelled rename)).Perm q'.joins

/-- A name for which the other record of joins has another one: they go by the two names at the same
path. -/
def Hops.Renames (hops hops' : Hops) (name name' : String) : Prop :=
  ∃ path hop hop', hops.get? path = some hop ∧ hops'.get? path = some hop' ∧
    hop.name = name ∧ hop'.name = name'

open Classical in
/-- The names of one record of joins taken to those of another one, and all others left as they
are. -/
noncomputable def Hops.renaming (hops hops' : Hops) (name : String) : String :=
  if h : ∃ name', hops.Renames hops' name name' then h.choose else name

/-- The joins of a statement go by the names that are recorded. -/
theorem MatchesPrefixes.joinNames_eq {c : Context} {inner : Bool} {collection : String}
    {prefixes : List String → Prop} {walked : List (List String × Hop)} {hops : Hops}
    {joins : List Join} (h : MatchesPrefixes c inner collection prefixes walked hops joins) :
    joinNames joins = walked.map fun entry => entry.2.name := by
  have hnames : joinNames joins = (joins.map Join.target).map TableRef.referenceName := by
    rw [joinNames, List.map_map]
    rfl
  rw [hnames, h.joined, List.map_map]
  rfl

section

variable {s : Schema} {options : Options} {names names' : Nat → String} {collection : String}
  {scope scope' : Scope} {k k' : Nat} {paths paths' : List (List String)}

namespace Scope.Recorded

variable {c : Context} {path : List String} {hop hop' : Hop}

theorem renaming_eq (h : scope.Recorded c collection k) {hops' : Hops}
    (hfound : scope.hops.get? path = some hop) (hfound' : hops'.get? path = some hop') :
    scope.hops.renaming hops' hop.name = hop'.name := by
  have hrenames : ∃ name', scope.hops.Renames hops' hop.name name' :=
    ⟨hop'.name, path, hop, hop', hfound, hfound', rfl, rfl⟩
  rw [Hops.renaming, dif_pos hrenames]
  obtain ⟨other, one, one', hone, hone', hname, hname'⟩ := hrenames.choose_spec
  have hkey := h.distinct other path one hop hone hfound hname
  rw [Hops.get?, hkey, ← Hops.get?, hfound'] at hone'
  rw [← hname', Option.some.inj hone']

/-- The place that a path has led to in one statement is that of the other one, renamed. -/
theorem reaches_renamed (h : scope.Recorded c collection k) {place place' : Place}
    {before : List String} (hroot : scope.hops.renaming scope'.hops collection = collection)
    (hsame : scope.hops.AgreeAt scope'.hops before) (hreach : scope.Reaches collection before place)
    (hreach' : scope'.Reaches collection before place') :
    place' = place.relabelled (scope.hops.renaming scope'.hops) := by
  generalize hpath : before = path at hreach'
  cases hreach with
  | root =>
    cases hreach' with
    | root => rw [Place.relabelled, Place.root, hroot]
    | hop _ => exact absurd hpath (by simp)
  | @hop before segment hop hfound =>
    cases hreach' with
    | root => exact absurd hpath (by simp)
    | @hop before' segment' hop' hfound' =>
      rw [← hpath] at hfound'
      have hcollection : hop.collection = hop'.collection := by
        unfold Hops.AgreeAt at hsame
        rw [hfound, hfound'] at hsame
        exact Option.some.inj hsame
      have hname := h.renaming_eq hfound hfound'
      rw [Place.relabelled, Hop.place, Hop.place, hcollection, ← hname]

end Scope.Recorded

/-- A link is joined under one condition, from whatever count of aliases. -/
theorem Context.joinTarget_unique {c : Context} {place : Place} {segment table : String}
    {link : Link} {found found' : String × Expr} {k k' j j' : Nat}
    (h : (c.joinTarget place segment table link).Gives k found k')
    (h' : (c.joinTarget place segment table link).Gives j found' j') : found = found' := by
  have hsame := ((c.steady_joinTarget place segment table link) k found k' h).2 j
  exact congrArg Prod.fst (Except.ok.inj (hsame.symm.trans h'))

/-- Which prefixes are joined does not depend on the aliases. -/
theorem Context.JoinsAlong.respelled
    (h : (s.context options names').JoinsAlong false collection paths scope) :
    (s.context options names).JoinsAlong false collection paths scope := by
  obtain ⟨walked, hdistinct, hcomplete, hpaths, htarget, hrecorded, hjoined⟩ := h
  exact ⟨walked, hdistinct, hcomplete, hpaths, htarget, hrecorded, hjoined⟩

/-- No two joins of a statement go by one name, if no two paths are recorded under one. -/
theorem Context.JoinsAlong.nodup_joinNames {c : Context}
    (halong : c.JoinsAlong false collection paths scope)
    (hdistinct : ∀ path path' hop hop', scope.hops.get? path = some hop →
      scope.hops.get? path' = some hop' → hop.name = hop'.name → Hops.key path = Hops.key path') :
    (joinNames scope.query.joins).Nodup := by
  obtain ⟨walked, hmatches⟩ := halong
  rw [hmatches.joinNames_eq]
  refine (List.Nodup.of_map Prod.fst hmatches.distinct).map_on ?_
  rintro ⟨path, hop⟩ hmem ⟨path', hop'⟩ hmem' hname
  have hfound := hmatches.get?_of_mem hmem
  have hfound' := hmatches.get?_of_mem hmem'
  have hpath {path : List String} {hop : Hop} (hmem : (path, hop) ∈ walked) : IsPath path :=
    hmatches.paths path ((hmatches.complete path).mp (List.mem_map_of_mem (f := Prod.fst) hmem))
  obtain rfl := Hops.key_injective (hpath hmem) (hpath hmem') (hmatches.ne_nil hmem)
    (hmatches.ne_nil hmem') (hdistinct path path' hop hop' hfound hfound' hname)
  rw [Option.some.inj (hfound.symm.trans hfound')]

/-- Each join that is recorded is there. -/
theorem Scope.Recorded.exists_join {c : Context} {inner : Bool} {prefixes : List String → Prop}
    {before : List String} {segment : String} {hop : Hop} (h : scope.Recorded c collection k)
    (hmatches : scope.MatchesPrefixes c inner collection prefixes)
    (hpath : IsPath (before ++ [segment]))
    (hfound : scope.hops.get? (before ++ [segment]) = some hop) :
    ∃ join ∈ scope.query.joins, scope.IsJoinOf c collection before segment hop join := by
  obtain ⟨walked, hmatches⟩ := hmatches
  have hmem : (⟨hop.collection, some hop.name⟩ : TableRef) ∈ scope.query.joins.map Join.target := by
    rw [hmatches.joined]
    exact List.mem_map.mpr ⟨_, hmatches.mem_of_get? hpath (by simp) hfound, rfl⟩
  obtain ⟨join, hjoin, htarget⟩ := List.mem_map.mp hmem
  obtain ⟨before', segment', hop', hpath', hfound', hjoinOf⟩ := h.joins join hjoin
  obtain ⟨place, i, j, hreach, htarget', hgives⟩ := hjoinOf
  rw [htarget'] at htarget
  obtain ⟨-, hlabel⟩ := TableRef.mk.inj htarget
  -- the join goes by the alias of the path, so it is that of the path
  have hkey := h.distinct _ _ hop' hop hfound' hfound (Option.some.inj hlabel)
  have hsame := Hops.key_injective hpath' hpath (by simp) (by simp) hkey
  obtain ⟨rfl, hsegment⟩ := List.append_inj' hsame rfl
  obtain rfl := List.singleton_inj.mp hsegment
  obtain rfl := Option.some.inj (hfound'.symm.trans hfound)
  exact ⟨join, hjoin, place, i, j, hreach, htarget', hgives⟩

/-- Every join goes by an alias. -/
theorem joinNames_relabelled {rename : String → String} {joins : List Join}
    (h : ∀ join ∈ joins, join.target.label.isSome) :
    joinNames (joins.map (Join.relabelled rename)) = (joinNames joins).map rename := by
  rw [joinNames, joinNames, List.map_map, List.map_map]
  refine List.map_congr_left fun join hjoin => ?_
  obtain ⟨⟨table, label⟩, condition⟩ := join
  obtain ⟨name, rfl⟩ := Option.isSome_iff_exists.mp (h _ hjoin)
  rfl

/-- A join is there in every statement that has recorded its path, under the names of that
statement. -/
theorem relabelled_mem_joins
    (h : scope.Recorded (s.context options names) collection k)
    (h' : scope'.Recorded (s.context options names') collection k')
    (halong' : (s.context options names).JoinsAlong false collection paths' scope')
    (hagree : scope.hops.Agree scope'.hops)
    (hroot : scope.hops.renaming scope'.hops collection = collection) {join : Join}
    (hjoin : join ∈ scope.query.joins) :
    join.relabelled (scope.hops.renaming scope'.hops) ∈ scope'.query.joins := by
  obtain ⟨before, segment, hop, hpath, hfound, place, i, j, hreach, htarget, hgives⟩ :=
    h.joins join hjoin
  rcases (hagree (before ++ [segment])).cases with ⟨hnone, -⟩ |
    ⟨found, hop', hfound', hother, hcollection⟩
  · cases hnone.symm.trans hfound
  obtain rfl := Option.some.inj (hfound.symm.trans hfound')
  have hname := h.renaming_eq hfound hother
  have halong' : (s.context options names').JoinsAlong false collection paths' scope' :=
    halong'.respelled
  obtain ⟨join', hjoin', place', i', j', hreach', htarget'', hgives'⟩ :=
    h'.exists_join halong' hpath hother
  -- it is tied to the same place under the same condition
  obtain rfl := h.reaches_renamed hroot (hagree before) hreach hreach'
  let rename := scope.hops.renaming scope'.hops
  have hrelabelled (link : Link) : (s.context options names').joinTarget (place.relabelled rename)
      segment (rename hop.name) link = (fun found => (found.1, found.2.relabelled rename)) <$>
        (s.context options names).joinTarget place segment hop.name link :=
    Context.joinTarget_relabelled place segment hop.name link
  have hrenamed : ((s.context options names').joinTarget (place.relabelled rename) segment
      hop'.name ((s.context options names').link place.collection segment)).Gives i
      (hop.collection, join.condition.relabelled rename) j := by
    rw [← hname, hrelabelled]
    exact Compile.gives_map.mpr ⟨_, hgives, rfl⟩
  have hcondition := (Prod.mk.inj (Context.joinTarget_unique hrenamed hgives')).2
  have hjoined : join.relabelled (scope.hops.renaming scope'.hops) = join' := by
    obtain ⟨target, condition⟩ := join
    obtain ⟨target', condition'⟩ := join'
    dsimp only at htarget htarget'' hcondition
    rw [Join.relabelled, htarget, htarget'', TableRef.relabelled, hcondition, hcollection,
      Option.map_some, hname]
  exact hjoined ▸ hjoin'

/-- Two statements that join the same prefixes have the same joins, under the names that each of
them has recorded. -/
theorem joinsAlike_renaming
    (h : scope.Recorded (s.context options names) collection k)
    (h' : scope'.Recorded (s.context options names') collection k')
    (halong : (s.context options names).JoinsAlong false collection paths scope)
    (halong' : (s.context options names).JoinsAlong false collection paths' scope')
    (hsame : ∀ before, (s.context options names).JoinsPrefix false collection paths before ↔
      (s.context options names).JoinsPrefix false collection paths' before)
    (hroot : ∀ path hop, scope.hops.get? path = some hop → hop.name ≠ collection)
    (hroot' : ∀ path hop, scope'.hops.get? path = some hop → hop.name ≠ collection) :
    scope.query.JoinsAlike collection (scope.hops.renaming scope'.hops) scope'.query := by
  have hagree : scope.hops.Agree scope'.hops := halong.agree halong' hsame
  have hboth {path : List String} {hop : Hop} (hfound : scope.hops.get? path = some hop) :
      ∃ hop', scope'.hops.get? path = some hop' ∧
        scope.hops.renaming scope'.hops hop.name = hop'.name := by
    rcases (hagree path).cases with ⟨hnone, -⟩ | ⟨found, hop', hfound', hother, -⟩
    · cases hnone.symm.trans hfound
    · obtain rfl := Option.some.inj (hfound.symm.trans hfound')
      exact ⟨hop', hother, h.renaming_eq hfound hother⟩
  have hfixed : scope.hops.renaming scope'.hops collection = collection := by
    refine dif_neg ?_
    rintro ⟨name', path, hop, hop', hfound, -, hname, -⟩
    exact hroot path hop hfound hname
  have hdistinct := halong.nodup_joinNames h.distinct
  have hsub : scope.query.joins.map (Join.relabelled (scope.hops.renaming scope'.hops)) ⊆
      scope'.query.joins := List.forall_mem_map.mpr fun join hjoin =>
    relabelled_mem_joins h h' halong' hagree hfixed hjoin
  obtain ⟨walked, hmatches⟩ := halong
  obtain ⟨walked', hmatches'⟩ := halong'
  have hnames {name : String} (hname : name ∈ joinNames scope.query.joins) :
      ∃ path hop, scope.hops.get? path = some hop ∧ hop.name = name := by
    rw [hmatches.joinNames_eq] at hname
    obtain ⟨⟨path, hop⟩, hmem, hname⟩ := List.mem_map.mp hname
    exact ⟨path, hop, hmatches.get?_of_mem hmem, hname⟩
  have hmoved {name : String} (hname : name ∈ joinNames scope.query.joins) :
      scope.hops.renaming scope'.hops name ≠ collection := by
    obtain ⟨path, hop, hfound, rfl⟩ := hnames hname
    obtain ⟨hop', hfound', hrenamed⟩ := hboth hfound
    rw [hrenamed]
    exact hroot' path hop' hfound'
  have hapart : Set.InjOn (scope.hops.renaming scope'.hops)
      {name | name ∈ collection :: joinNames scope.query.joins} := by
    intro name hname other hother heq
    rcases List.mem_cons.mp hname with hname | hname <;>
      rcases List.mem_cons.mp hother with hother | hother
    · rw [hname, hother]
    · rw [hname, hfixed] at heq
      exact absurd heq.symm (hmoved hother)
    · rw [hother, hfixed] at heq
      exact absurd heq (hmoved hname)
    · obtain ⟨path, hop, hfound, rfl⟩ := hnames hname
      obtain ⟨path', one, hone, rfl⟩ := hnames hother
      obtain ⟨hop', hfound', hrenamed⟩ := hboth hfound
      obtain ⟨one', hone', hrenamed'⟩ := hboth hone
      rw [hrenamed, hrenamed'] at heq
      have hkey := h'.distinct path path' hop' one' hfound' hone' heq
      rw [Hops.get?, hkey, ← Hops.get?, hone] at hfound
      rw [Option.some.inj hfound]
  refine ⟨hfixed, hapart, ?_⟩
  have hlabels : ∀ join ∈ scope.query.joins, join.target.label.isSome := by
    intro join hjoin
    have htarget := List.mem_map_of_mem (f := Join.target) hjoin
    rw [hmatches.joined] at htarget
    obtain ⟨entry, -, hentry⟩ := List.mem_map.mp htarget
    rw [← hentry]
    rfl
  have hnodup :
      (scope.query.joins.map (Join.relabelled (scope.hops.renaming scope'.hops))).Nodup := by
    refine List.Nodup.of_map (fun join => join.target.referenceName) ?_
    rw [← joinNames, joinNames_relabelled hlabels]
    exact hdistinct.map_on fun name hname other hother heq =>
      hapart (List.mem_cons_of_mem _ hname) (List.mem_cons_of_mem _ hother) heq
  have hcount : (walked.map Prod.fst).Perm (walked'.map Prod.fst) :=
    (List.perm_ext_iff_of_nodup hmatches.distinct hmatches'.distinct).mpr fun before => by
      rw [hmatches.complete, hmatches'.complete, hsame]
  refine (hnodup.subperm hsub).perm_of_length_le (le_of_eq ?_)
  have hlength := hcount.length_eq
  rw [List.length_map, List.length_map] at hlength
  have hjoined := congrArg List.length hmatches.joined
  have hjoined' := congrArg List.length hmatches'.joined
  rw [List.length_map, List.length_map] at hjoined hjoined'
  rw [List.length_map, hjoined, hjoined', hlength]

/-- Rows under the names of one statement, and the same rows under those of another one, are the
same rows at all paths that both have recorded. -/
theorem sameRows_renaming {E : Engine} {c : Context} {tables tables' : Tables E}
    (h : scope.Recorded c collection k) (halong : c.JoinsAlong false collection paths scope)
    (hagree : scope.hops.Agree scope'.hops)
    (hroot : scope.hops.renaming scope'.hops collection = collection)
    (hrows : ∀ name ∈ collection :: joinNames scope.query.joins,
      rowOf tables name = rowOf tables' (scope.hops.renaming scope'.hops name)) :
    SameRows collection scope.hops scope'.hops tables tables' := by
  refine ⟨?_, fun path hop hop' hfound hfound' => ⟨?_, ?_⟩⟩
  · have hsame := hrows collection List.mem_cons_self
    rwa [hroot] at hsame
  · have hsame := hagree path
    unfold Hops.AgreeAt at hsame
    rw [hfound, hfound'] at hsame
    exact Option.some.inj hsame
  · obtain ⟨walked, hmatches⟩ := halong
    have hname : hop.name ∈ joinNames scope.query.joins := by
      have hmem := member?_mem hfound
      rw [hmatches.recorded] at hmem
      obtain ⟨entry, hentry, hsame⟩ := List.mem_map.mp hmem
      rw [hmatches.joinNames_eq, ← (Prod.mk.inj hsame).2]
      exact List.mem_map_of_mem (f := fun entry => entry.2.name) hentry
    rw [hrows hop.name (List.mem_cons_of_mem _ hname), h.renaming_eq hfound hfound']

end

/-! ## Compilation under other aliases -/

/-- There are aliases that are not spelled like a collection. -/
theorem Schema.exists_fresh (s : Schema) :
    ∃ names : Nat → String, Function.Injective names ∧ ∀ k, s.AvoidsAliases names k := by
  let lengths := s.collections.map fun declared => declared.info.name.length
  have hlength (k : Nat) : (String.ofList (List.replicate (lengths.sum + 1 + k) 'x')).length =
      lengths.sum + 1 + k := by
    rw [String.length_ofList, List.length_replicate]
  refine ⟨fun k => .ofList (List.replicate (lengths.sum + 1 + k) 'x'), fun j k hsame => ?_,
    fun _ j _ => ?_⟩
  · have hsame := congrArg String.length hsame
    rw [hlength, hlength] at hsame
    omega
  · refine List.find?_eq_none.mpr fun declared hdeclared hname => ?_
    have hle := List.le_sum_of_mem (List.mem_map_of_mem
      (f := fun declared : Collection => declared.info.name.length) hdeclared)
    have hsame := congrArg String.length (of_decide_eq_true hname)
    rw [hlength] at hsame
    have hle : declared.info.name.length ≤ lengths.sum := hle
    omega

section

variable {s : Schema} {options : Options} {collection : String}

/-- The statement of a request is a spelling of one whose aliases are told apart and are no names of
collections; under any other aliases the request gives another spelling of that one. -/
theorem exists_apply_fresh {names : Nat → String} {r : Request} {applied : Applied} {k : Nat}
    (h : ((s.context options names).apply collection (Compiler.target collection r) r false).Gives 0
      applied k) :
    ∃ fresh plain, Function.Injective fresh ∧ (∀ k, s.AvoidsAliases fresh k) ∧
      ((s.context options fresh).apply collection (Compiler.target collection r) r false).Gives 0
        plain k ∧
      applied.query = plain.query.relabelled (Alias.respelling fresh names) ∧
      ∀ names', ∃ applied', ((s.context options names').apply collection
          (Compiler.target collection r) r false).Gives 0 applied' k ∧
        applied'.query = plain.query.relabelled (Alias.respelling fresh names') := by
  obtain ⟨fresh, hinjective, havoids⟩ := s.exists_fresh
  have hstep (names : Nat → String) : Except.Matches True
      (fun found other : Applied × Nat => found.1.query.Alike True
        (Alias.respelling fresh names) other.1.query ∧ found.2 = other.2)
      (((s.context options fresh).apply collection (Compiler.target collection r) r false) 0)
      (((s.context options names).apply collection (Compiler.target collection r) r false) 0) :=
    Context.inStep_apply (respells_respelling hinjective havoids names) rfl
      (fun hroot => Compiler.target_alike hroot r) (fun _ => .inl rfl) 0
  have hfresh := hstep names
  rw [h] at hfresh
  cases hplain : ((s.context options fresh).apply collection (Compiler.target collection r) r
      false) 0 with
  | error e =>
    rw [hplain] at hfresh
    cases hfresh with
    | left hfalse => exact absurd trivial hfalse
  | ok found =>
    obtain ⟨plain, j⟩ := found
    rw [hplain] at hfresh
    cases hfresh with
    | ok hsame =>
      obtain ⟨halike, rfl⟩ := hsame
      refine ⟨fresh, plain, hinjective, havoids, hplain, halike.whole trivial, fun names' => ?_⟩
      have hother := hstep names'
      rw [hplain] at hother
      generalize hgives : ((s.context options names').apply collection
        (Compiler.target collection r) r false) 0 = other at hother
      cases hother with
      | right hfalse => exact absurd trivial hfalse
      | @ok _ result hsame =>
        obtain ⟨halike, rfl⟩ := hsame
        exact ⟨result.1, hgives, halike.whole trivial⟩

/-- Whether a request compiles does not depend on the aliases. -/
theorem exists_apply_respelled {names : Nat → String} {r : Request} {applied : Applied} {k : Nat}
    (h : ((s.context options names).apply collection (Compiler.target collection r) r false).Gives 0
      applied k) (names' : Nat → String) :
    ∃ applied' k', ((s.context options names').apply collection (Compiler.target collection r) r
      false).Gives 0 applied' k' := by
  obtain ⟨fresh, plain, -, -, -, -, hspelled⟩ := exists_apply_fresh h
  obtain ⟨applied', happlied', -⟩ := hspelled names'
  exact ⟨applied', k, happlied'⟩

/-! ## Reordered filters -/

/-- A filter and its reordered form mean the same. -/
theorem filtersAgree_of_reorders {E : Engine} {db : Database E} {names names' : Nat → String}
    {f g : Filter} (hinjective : Function.Injective names)
    (hinjective' : Function.Injective names') (h : f.Reorders g) :
    FiltersAgree s options names names' db collection (some f) (some g) := by
  intro declared asked asked' m m' n n' e? e'? tables tables' hc havoids havoids' hpaired _ _ hsome
    hsome'
  obtain ⟨rows, hplaces, hplaces'⟩ := hpaired.rows.exists_places
  rw [truthOn_condition?_sense hinjective [] isPath_nil f.unfolded (isUnfolded_unfolded f) hc
      havoids hpaired.led hplaces (hsome f rfl),
    truthOn_condition?_sense hinjective' [] isPath_nil g.unfolded (isUnfolded_unfolded g) hc
      havoids' hpaired.led' hplaces' (hsome' g rfl), h.unfolded.sense?_eq]

/-- The filter of a request joins several rows whether it is reordered or not. -/
theorem repeatsRows_reordered {names names' : Nat → String} {r : Request} {f g : Filter}
    {applied applied' : Applied} {k k' : Nat} (hfilter : r.filter = some f) (h : f.Reorders g)
    (happly : ((s.context options names).apply collection (Compiler.target collection r) r
      false).Gives 0 applied k)
    (happly' : ((s.context options names').apply collection (Compiler.target collection r)
      { r with filter := some g } false).Gives 0 applied' k') :
    applied.repeatsRows = applied'.repeatsRows := by
  have hpaths : ((s.context options names).requestPaths collection r).Perm
      ((s.context options names').requestPaths collection { r with filter := some g }) := by
    rw [Context.requestPaths, Context.requestPaths, hfilter, Option.toList_some,
      List.flatMap_singleton, Option.toList_some, List.flatMap_singleton]
    rw [Context.filterPaths_congr (s.relations_context options options names' names)]
    exact h.unfolded.filterPaths (s.context options names) collection []
  have hseveral := Context.repeatsRows_iff (Compiler.target_joins collection r) happly
  have hseveral' := Context.repeatsRows_iff (Compiler.target_joins collection r) happly'
  rw [Bool.eq_iff_iff, hseveral, hseveral']
  simp only [hpaths.mem_iff]
  exact Iff.rfl

/-- A request that compiles does so with its filter reordered, whatever the aliases are. -/
theorem exists_apply_reordered {letters : Alias.Letters} {r : Request} {f g : Filter}
    {applied : Applied} (hfilter : r.filter = some f) (hreorders : f.Reorders g)
    (h : (s.compiler options letters).apply collection (Compiler.target collection r) r false =
      .ok applied) (letters' : Alias.Letters) :
    ∃ applied', (s.compiler options letters').apply collection (Compiler.target collection r)
      { r with filter := some g } false = .ok applied' := by
  obtain ⟨relations, k, hrelations, happly⟩ := Compiler.apply_eq_ok h
  obtain rfl : s.relations = relations := Except.ok.inj hrelations
  obtain ⟨found, j, hfound⟩ := Context.apply_of_reorders (Compiler.target_joins collection r)
    hfilter hreorders happly
  have hfound : ((s.context options (s.compiler options letters).names).apply collection
      (Compiler.target collection { r with filter := some g }) { r with filter := some g }
      false).Gives 0 found j := hfound
  obtain ⟨applied', k', happly'⟩ := exists_apply_respelled hfound (s.compiler options letters').names
  exact ⟨applied', Compiler.apply_of_gives rfl happly'⟩

/-- Under aliases that are not spelled like a collection, the statements of a request and of its
reordered form have the same joins and conditions with the same truth values. -/
theorem joinsAlike_reordered {names names' : Nat → String} {r : Request} {f g : Filter}
    {applied applied' : Applied} {k k' : Nat} (hinjective : Function.Injective names)
    (hinjective' : Function.Injective names') (havoids : s.AvoidsAliases names k)
    (havoids' : s.AvoidsAliases names' k') (hfilter : r.filter = some f) (hreorders : f.Reorders g)
    (happly : ((s.context options names).apply collection (Compiler.target collection r) r
      false).Gives 0 applied k)
    (happly' : ((s.context options names').apply collection (Compiler.target collection r)
      { r with filter := some g } false).Gives 0 applied' k') :
    ∃ rename, applied.query.JoinsAlike collection rename applied'.query ∧
      ∀ {E : Engine} (db : Database E) (tables tables' : Tables E),
        (∀ name ∈ collection :: joinNames applied.query.joins,
          rowOf tables name = rowOf tables' (rename name)) →
        applied.query.condition.map (Expr.truthOn db tables) =
          applied'.query.condition.map (Expr.truthOn db tables') := by
  have hjoins := Compiler.target_joins collection r
  have hcondition := Compiler.target_condition collection r
  obtain ⟨info, hinfo⟩ := Context.collection_of_apply happly
  obtain ⟨declared, hc, -⟩ := Option.map_eq_some_iff.mp (Except.ok.inj hinfo)
  obtain ⟨hops, asked, e?, m, n, hrecorded, hkeeps, hled, hn, hnone, hsome, halong, hselects⟩ :=
    selects_of_apply hinjective hc havoids hjoins hcondition happly
  obtain ⟨hops', asked', e'?, m', n', hrecorded', hkeeps', hled', hn', hnone', hsome', halong',
    hselects'⟩ := selects_of_apply hinjective' hc havoids' hjoins hcondition happly'
  -- the aliases do not matter for the paths and prefixes that are joined
  rw [Context.walkedPaths_congr (s.relations_context options options names' names)] at halong'
  have halong' : (s.context options names).JoinsAlong false collection ((s.context options
      names).walkedPaths collection { r with filter := some g }) ⟨applied'.query, hops'⟩ :=
    halong'.respelled
  have hsame (before : List String) : (s.context options names).JoinsPrefix false collection
        ((s.context options names).walkedPaths collection r) before ↔
      (s.context options names).JoinsPrefix false collection ((s.context options names).walkedPaths
        collection { r with filter := some g }) before :=
    Context.joinsPrefix_of_perm (Context.walkedPaths_reordered hfilter hreorders) before
  have hagree := halong.agree halong' hsame
  have hroot : ∀ path hop, hops.get? path = some hop → hop.name ≠ collection := by
    intro path hop hfound
    obtain ⟨j, hj, hname⟩ := hrecorded.led.issued path hop hfound
    exact fun hsame => havoids.ne hj hc (hsame.symm.trans hname)
  have hroot' : ∀ path hop, hops'.get? path = some hop → hop.name ≠ collection := by
    intro path hop hfound
    obtain ⟨j, hj, hname⟩ := hrecorded'.led.issued path hop hfound
    exact fun hsame => havoids'.ne hj hc (hsame.symm.trans hname)
  have halike := joinsAlike_renaming hrecorded hrecorded' halong halong' hsame hroot hroot'
  refine ⟨hops.renaming hops', halike, fun {E} db tables tables' hrows => ?_⟩
  have hrows := sameRows_renaming hrecorded halong hagree halike.root hrows
  have hfilters : FiltersAgree s options names names' db collection (some f) (some g) :=
    filtersAgree_of_reorders hinjective hinjective' hreorders
  have htruth := hfilters hc (havoids.mono hn) (havoids'.mono hn')
    ⟨hled, hled', hrows.mono hkeeps hkeeps'⟩ (fun h => by cases h) (fun h => by cases h)
    (fun f' hf' => hsome f' (hfilter.trans hf')) hsome'
  rw [(hselects db).2 tables, (hselects' db).2 tables', htruth, truthOn_sought?_eq hrows.root]
  rfl

/-- The order of keys carries no meaning.  A request compiles if and only if it does with its filter
reordered, whatever the aliases are; and with the same flag.  If no alias is spelled like a
collection, both statements have the same joins, under other names and in another order, and
conditions that have the same truth value wherever the tables have the same rows. -/
theorem apply_reordered {letters letters' : Alias.Letters} {r : Request} {f g : Filter}
    (hfilter : r.filter = some f) (hreorders : f.Reorders g) :
    ((∃ applied, (s.compiler options letters).apply collection (Compiler.target collection r) r
        false = .ok applied) ↔
      ∃ applied', (s.compiler options letters').apply collection (Compiler.target collection r)
        { r with filter := some g } false = .ok applied') ∧
    ∀ applied applied', (s.compiler options letters).apply collection
        (Compiler.target collection r) r false = .ok applied →
      (s.compiler options letters').apply collection (Compiler.target collection r)
        { r with filter := some g } false = .ok applied' →
      applied.repeatsRows = applied'.repeatsRows ∧
        ((∀ name ∈ (s.compiler options letters).issued collection r, s.collection? name = none) →
          (∀ name ∈ (s.compiler options letters').issued collection { r with filter := some g },
            s.collection? name = none) →
          ∃ rename, applied.query.JoinsAlike collection rename applied'.query ∧
            ∀ {E : Engine} (db : Database E) (tables tables' : Tables E),
              (∀ name ∈ collection :: joinNames applied.query.joins,
                rowOf tables name = rowOf tables' (rename name)) →
              applied.query.condition.map (Expr.truthOn db tables) =
                applied'.query.condition.map (Expr.truthOn db tables')) := by
  have hinjective (letters : Alias.Letters) :
      Function.Injective (s.compiler options letters).names := Alias.names_injective _ _ letters
  refine ⟨⟨fun ⟨applied, h⟩ => exists_apply_reordered hfilter hreorders h letters',
    fun ⟨applied', h'⟩ => ?_⟩, fun applied applied' h h' => ?_⟩
  · have hback : r = { { r with filter := some g } with filter := some f } := by rw [← hfilter]
    rw [hback]
    exact exists_apply_reordered (r := { r with filter := some g }) rfl hreorders.symm h' letters
  · obtain ⟨relations, k, hrelations, happly⟩ := Compiler.apply_eq_ok h
    obtain ⟨relations', k', hrelations', happly'⟩ := Compiler.apply_eq_ok h'
    obtain rfl : s.relations = relations := Except.ok.inj hrelations
    obtain rfl : s.relations = relations' := Except.ok.inj hrelations'
    refine ⟨repeatsRows_reordered hfilter hreorders happly happly', fun hfresh hfresh' => ?_⟩
    have havoids : s.AvoidsAliases (s.compiler options letters).names k :=
      fun j hj => hfresh _ (Compiler.mem_issued hrelations happly hj)
    have havoids' : s.AvoidsAliases (s.compiler options letters').names k' :=
      fun j hj => hfresh' _ (Compiler.mem_issued hrelations' happly' hj)
    exact joinsAlike_reordered (hinjective letters) (hinjective letters') havoids havoids' hfilter
      hreorders happly happly'

end

/-- Comments by Ann on articles by Ann. -/
def Filter.bothByAnn : Filter :=
  ⟨Filter.byAnn.clauses ++ [.field "article" (.nested .byAnn)]⟩

/-- With the keys of a filter reversed, the authors and the articles are joined in reverse too. -/
theorem apply_reordered_blog :
    ∃ applied applied', (Schema.blog.compiler {} fun _ => 0).apply "comments"
        (Compiler.target "comments" {}) { filter := some .bothByAnn } false = .ok applied ∧
      (Schema.blog.compiler {} fun _ => 0).apply "comments" (Compiler.target "comments" {})
        { filter := some ⟨Filter.bothByAnn.clauses.reverse⟩ } false = .ok applied' ∧
      applied.repeatsRows = applied'.repeatsRows ∧
      ∃ rename, applied.query.JoinsAlike "comments" rename applied'.query ∧
        ∀ {E : Engine} (db : Database E) (tables tables' : Tables E),
          (∀ name ∈ "comments" :: joinNames applied.query.joins,
            rowOf tables name = rowOf tables' (rename name)) →
          applied.query.condition.map (Expr.truthOn db tables) =
            applied'.query.condition.map (Expr.truthOn db tables') := by
  obtain ⟨applied, happlied, -⟩ : ∃ applied, (Schema.blog.compiler {} fun _ => 0).apply "comments"
      (Compiler.target "comments" {}) { filter := some .bothByAnn } false = .ok applied ∧
        applied.repeatsRows = false :=
    Except.exists_eq_ok (by decide +kernel)
  have hreorders : Filter.bothByAnn.Reorders ⟨Filter.bothByAnn.clauses.reverse⟩ :=
    .single (.clauses (List.reverse_perm _).symm)
  obtain ⟨hcompiles, hsame⟩ := @apply_reordered Schema.blog {} "comments" (fun _ => 0) (fun _ => 0)
    { filter := some .bothByAnn } .bothByAnn ⟨Filter.bothByAnn.clauses.reverse⟩ rfl hreorders
  obtain ⟨applied', happlied'⟩ := hcompiles.mp ⟨applied, happlied⟩
  obtain ⟨hrepeats, halike⟩ := hsame applied applied' happlied happlied'
  exact ⟨applied, applied', happlied, happlied', hrepeats,
    halike (collection?_issued_blog _ _) (collection?_issued_blog _ _)⟩

/-- Articles with comments and notes, where the collection of the comments is spelled like the first
alias. -/
def Schema.annotated : Schema where
  collections := [
    { info := { name := "articles", primary := "id" }
      fields := [⟨"id", .integer, [], none⟩, ⟨"comments", .virtual, ["o2m"], none⟩,
        ⟨"notes", .virtual, ["o2m"], none⟩] },
    { info := { name := "authors", primary := "id" }
      fields := [⟨"id", .integer, [], none⟩, ⟨"name", .string, [], none⟩] },
    { info := { name := "j1", primary := "id" }
      fields := [⟨"id", .integer, [], none⟩, ⟨"article", .integer, [], none⟩,
        ⟨"author", .integer, [], none⟩] },
    { info := { name := "notes", primary := "id" }
      fields := [⟨"id", .integer, [], none⟩, ⟨"article", .integer, [], none⟩,
        ⟨"author", .integer, [], none⟩] }]
  relations := [
    { collection := "j1", field := "article", related := some "articles"
      info := { oneField := some "comments" } },
    { collection := "j1", field := "author", related := some "authors" },
    { collection := "notes", field := "article", related := some "articles"
      info := { oneField := some "notes" } },
    { collection := "notes", field := "author", related := some "authors" }]

/-- An article with a comment and a note by Ann. -/
def Database.annotated : Database Engine.literals
  | "articles" => [Database.blog.rowOf [("id", .int 1)]]
  | "authors" => [Database.blog.rowOf [("id", .int 2), ("name", .string "Ann")]]
  | "j1" => [Database.blog.rowOf [("id", .int 5), ("article", .int 1), ("author", .int 2)]]
  | "notes" => [Database.blog.rowOf [("id", .int 6), ("article", .int 1), ("author", .int 2)]]
  | _ => []

/-- Articles with a comment and a note by Ann. -/
def Filter.annotatedByAnn : Filter :=
  ⟨[.field "comments" (.quantified .some .byAnn), .field "notes" (.quantified .some .byAnn)]⟩

/-- The first alias hides the comments if they are asked for first, and not if the notes are: the
condition that the one order gives does not hold of the article, that of the other one does. -/
theorem not_apply_reordered_annotated :
    Schema.annotated.validate.isOk = true ∧ Schema.annotated.HasKeys Database.annotated ∧
      Filter.annotatedByAnn.Reorders ⟨Filter.annotatedByAnn.clauses.reverse⟩ ∧
      ∃ q q', (Schema.annotated.compiler { aliasStyle := .sequential } fun _ => 0).compile "articles"
          { filter := some .annotatedByAnn, limit := some (-1) } = .ok q ∧
        (Schema.annotated.compiler { aliasStyle := .sequential } fun _ => 0).compile "articles"
          { filter := some ⟨Filter.annotatedByAnn.clauses.reverse⟩, limit := some (-1) } = .ok q' ∧
        q.joins.isEmpty ∧ q'.joins.isEmpty ∧
        ∃ row ∈ Database.annotated "articles",
          q.condition.map (Expr.truthOn Database.annotated [("articles", row)]) = some .no ∧
          q'.condition.map (Expr.truthOn Database.annotated [("articles", row)]) = some .yes := by
  let row := Database.blog.rowOf [("id", .int 1)]
  obtain ⟨q, hq, hno⟩ : ∃ q, (Schema.annotated.compiler { aliasStyle := .sequential }
      fun _ => 0).compile "articles" { filter := some .annotatedByAnn, limit := some (-1) } =
        .ok q ∧ (q.joins.isEmpty,
          q.condition.map (Expr.truthOn Database.annotated [("articles", row)])) =
            (true, some .no) :=
    Compiler.exists_compile_with (by decide +kernel)
  obtain ⟨q', hq', hyes⟩ : ∃ q, (Schema.annotated.compiler { aliasStyle := .sequential }
      fun _ => 0).compile "articles"
        { filter := some ⟨Filter.annotatedByAnn.clauses.reverse⟩, limit := some (-1) } =
        .ok q ∧ (q.joins.isEmpty,
          q.condition.map (Expr.truthOn Database.annotated [("articles", row)])) =
            (true, some .yes) :=
    Compiler.exists_compile_with (by decide +kernel)
  obtain ⟨hjoins, hno⟩ := Prod.mk.inj hno
  obtain ⟨hjoins', hyes⟩ := Prod.mk.inj hyes
  exact ⟨by decide +kernel, Schema.hasKeys_of_forall (by decide +kernel),
    .single (.clauses (List.reverse_perm _).symm), q, q', hq, hq', hjoins, hjoins', row,
    List.mem_singleton_self row, hno, hyes⟩

end JsonSql
