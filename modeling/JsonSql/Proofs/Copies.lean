import JsonSql.Proofs.Relations
import JsonSql.Proofs.WholeRows

set_option autoImplicit false

/-!
# How often a row is returned

A statement of whole rows returns a row once for each way in which its joins put rows beside it that
meet its condition (`Sql.Query.copies`).  A join along a link to one row puts one row beside every
row, so it neither adds nor drops a copy.  Two statements on the same collection whose conditions
are met by the same rows side by side, and which differ in such joins only, return every row equally
often (`output_perm`).
-/

namespace JsonSql

open JsonSql.Sql

variable {E : Engine} {s : Schema} {db : Database E} {options : Options} {names : Nat → String}
  {collection : String} {scope : Scope} {walked walked' : List (List String)}
  {paths paths' : List (List String)}

/-! ## One row beside every row -/

/-- No two rows of a collection have primary keys with the same text.  Keys of one type that differ
have different texts. -/
def Schema.HasKeyTexts (s : Schema) (db : Database E) : Prop :=
  ∀ collection c, s.collection? collection = some c → (db collection).Pairwise fun row other =>
    E.same ((row c.info.primary).bind (E.cast .text)) ((other c.info.primary).bind (E.cast .text)) ≠
      .yes

theorem Schema.hasKeyTexts_of_forall
    (h : ∀ c ∈ s.collections, (db c.info.name).Pairwise fun row other =>
      E.same ((row c.info.primary).bind (E.cast .text))
        ((other c.info.primary).bind (E.cast .text)) ≠ .yes) : s.HasKeyTexts db := by
  intro collection c hc
  have hname : c.info.name = collection := by simpa using List.find?_some hc
  subst hname
  exact h c (List.mem_of_find?_eq_some hc)

/-- Where at most one item is as asked, there is that one or the one that stands for none. -/
theorem orOne_filter {α : Type} {asked : α → Bool} {items : List α} (item : α)
    (h : items.Pairwise fun a b => ¬ (asked a = true ∧ asked b = true)) :
    ∃ found, orOne item (items.filter asked) = [found] := by
  rw [filter_eq_find? h]
  cases items.find? asked with
  | none => exact ⟨item, rfl⟩
  | some found => exact ⟨found, rfl⟩

theorem Schema.primaryOf_eq {target : String} {c : Collection}
    (hc : s.collection? target = some c) : s.primaryOf target = c.info.primary := by
  rw [Schema.primaryOf, hc]
  rfl

/-- A link to one row puts one row beside every row. -/
theorem Link.beside_eq_singleton {owner target : String} {c : Collection} {link : Link}
    (hkeys : s.HasKeys db) (htexts : s.HasKeyTexts db) (hc : s.collection? target = some c)
    (htarget : link.target? = some target) (hone : link.isToMany = false) (row : Row E) :
    ∃ found, link.beside s db owner row target = [found] := by
  have hprimary := Schema.primaryOf_eq hc
  cases link with
  | none => cases htarget
  | manyToOne r =>
    refine orOne_filter (nullRow E) ((hkeys target c hc).2.imp fun hdifferent hboth =>
      hdifferent ?_)
    have hrelated : r.related = some target := htarget
    simp only [Link.joins, hrelated, Option.map_some, Option.getD_some, hprimary,
      decide_eq_true_eq] at hboth
    exact E.same_trans ((E.same_symm _ _).trans hboth.1) hboth.2
  | manyToAny r scope =>
    refine orOne_filter (nullRow E) ((htexts target c hc).imp fun hdifferent hboth =>
      hdifferent ?_)
    obtain rfl : scope = some target := htarget
    simp only [Link.joins, Option.map_some, Option.getD_some, hprimary, decide_eq_true_eq] at hboth
    unfold Relation.pointsTo at hboth
    cases hdiscriminator : r.info.discriminator with
    | none => rw [hdiscriminator] at hboth; cases hboth.1
    | some column =>
      rw [hdiscriminator] at hboth
      have hfirst := Truth.and_eq_yes.mp hboth.1
      have hsecond := Truth.and_eq_yes.mp hboth.2
      exact E.same_trans ((E.same_symm _ _).trans hfirst.2) hsecond.2
  | oneToMany r | oneToAny r => cases hone

/-! ## Joined paths -/

namespace Context

/-- Where segments lead on they lead where their links do. -/
theorem reached?_of_onward? {inner : Bool} {before : List String} : ∀ {place there : Place},
    before.foldlM ((s.context options names).onward? inner) place = some there →
      s.reached? place.collection before = some there.collection := by
  induction before with
  | nil =>
    intro place there h
    cases h
    rfl
  | cons segment rest ih =>
    intro place there h
    rw [List.foldlM_cons, Option.bind_eq_bind, Option.bind_eq_some_iff] at h
    obtain ⟨next, hnext, hrest⟩ := h
    have htarget : ((s.context options names).link place.collection segment).target? =
        some next.collection := by
      unfold onward? at hnext
      split at hnext
      · obtain ⟨target, htarget, rfl⟩ := Option.map_eq_some_iff.mp hnext
        exact htarget
      · cases hnext
    rw [Schema.reached?, List.foldlM_cons, Option.bind_eq_bind, Option.bind_eq_some_iff]
    exact ⟨next.collection, htarget, ih hrest⟩

/-- A prefix that is joined along a link to several rows. -/
theorem joinsSeveral_concat {inner : Bool} {before : List String} {owner segment : String}
    (hjoined : ((s.context options names).prefixTarget? inner collection
      (before ++ [segment])).isSome)
    (howner : s.reached? collection before = some owner) :
    (s.context options names).JoinsSeveral inner collection (before ++ [segment]) ↔
      ((s.context options names).link owner segment).isToMany = true := by
  rw [prefixTarget?_concat] at hjoined
  rw [JoinsSeveral, prefixLink?_concat]
  cases hplace : before.foldlM ((s.context options names).onward? inner) (.root collection) with
  | none =>
    rw [hplace] at hjoined
    cases hjoined
  | some place =>
    obtain rfl : place.collection = owner :=
      Option.some.inj ((reached?_of_onward? hplace).symm.trans howner)
    rw [hplace, Option.bind_some, joinedTarget?] at hjoined
    rw [Option.bind_some]
    split at hjoined
    · next hleads => rw [if_pos hleads, Option.any_some]
    · cases hjoined

end Context

namespace Scope.Tallies

/-- The paths that are joined are the prefixes that the joins match. -/
theorem mem_iff {c : Context} {inner : Bool} {path : List String}
    (h : scope.Tallies s db collection walked)
    (halong : c.JoinsAlong inner collection paths scope) :
    path ∈ walked ↔ c.JoinsPrefix inner collection paths path := by
  constructor
  · intro hpath
    obtain ⟨hne, hsegments⟩ := h.paths path hpath
    exact (halong.isSome_get?_iff hsegments hne).mp ((h.recorded path hne hsegments).mpr hpath)
  · intro hjoined
    obtain ⟨hne, hsegments⟩ := halong.isPath hjoined
    exact (h.recorded path hne hsegments).mp ((halong.isSome_get?_iff hsegments hne).mpr hjoined)

/-- At a path that is not joined along a link to several rows there is one row beside every row. -/
theorem besideAt_eq_singleton {path : List String} (hkeys : s.HasKeys db)
    (htexts : s.HasKeyTexts db) (h : scope.Tallies s db collection walked)
    (halong : (s.context options names).JoinsAlong false collection paths scope)
    (hpath : path ∈ walked)
    (hone : ¬ (s.context options names).JoinsSeveral false collection path) (row : Row E) :
    ∃ found, s.besideAt db collection path row = [found] := by
  rcases List.eq_nil_or_concat path with rfl | ⟨before, segment, rfl⟩
  · exact absurd rfl (h.paths [] hpath).1
  · rw [List.concat_eq_append] at hpath hone ⊢
    obtain ⟨owner, target, howner, htarget, hdeclared⟩ := h.linked before segment hpath
    obtain ⟨-, -, -, hjoined⟩ := (h.mem_iff halong).mp hpath
    have hlink : (link s.relations owner segment).isToMany = false :=
      Bool.eq_false_iff.mpr fun hmany =>
        hone ((Context.joinsSeveral_concat hjoined howner).mpr hmany)
    obtain ⟨c, hc⟩ := hdeclared hlink
    rw [besideAt_concat howner htarget]
    exact Link.beside_eq_singleton hkeys htexts hc htarget hlink row

end Scope.Tallies

/-! ## Copies -/

/-- The rows that the joins of a statement put beside a row of its collection and that meet its
condition: the row is returned once for each. -/
def Sql.Query.copies (q : Query) (db : Database E) (collection : String) (row : Row E) :
    List (Tables E) :=
  (joinTables db [(collection, row)] q.joins).filter fun tables => meets db tables q.condition

/-- A statement of whole rows returns every row once for each of its copies. -/
theorem output_eq_copies {q : Query} {hops : Hops} (h : Scope.Joins s db collection ⟨q, hops⟩)
    (hitems : q.items = [⟨.allColumns (some collection), none⟩])
    (hsource : q.source = some ⟨collection, none⟩) (hgroups : q.groups = []) :
    q.output db [] = (db collection).flatMap fun row =>
      List.replicate (q.copies db collection row).length [Cell.row row] := by
  obtain ⟨items, source, joins, condition, groups, orders, window⟩ := q
  obtain rfl : items = [⟨.allColumns (some collection), none⟩] := hitems
  obtain rfl : source = some ⟨collection, none⟩ := hsource
  obtain rfl : groups = [] := hgroups
  rw [output_select db [] rfl, List.filter_flatMap, List.map_flatMap]
  refine List.flatMap_congr fun row _ => ?_
  rw [← List.map_const']
  refine List.map_congr_left fun tables htables => ?_
  -- the cell is that of the collection, which every join leaves as it is
  exact congrArg (fun found => [Cell.row found])
    (h.fits [] row tables (List.mem_of_mem_filter htables)).1

theorem length_filter_eq_sum {α : Type} (kept : α → Bool) (items : List α) :
    (items.filter kept).length = (items.map fun item => (kept item).toNat).sum := by
  induction items with
  | nil => rfl
  | cons item rest ih =>
    rw [List.map_cons, List.sum_cons, List.filter_cons, ← ih]
    cases kept item <;> simp [Nat.add_comm]

/-- What is recorded is recorded for a path of segments. -/
theorem Context.JoinsAlong.spelled {c : Context} {inner : Bool}
    (h : c.JoinsAlong inner collection paths scope) {path : List String} {hop : Hop}
    (hfound : scope.hops.get? path = some hop) :
    ∃ other, other ≠ [] ∧ IsPath other ∧ Hops.key other = Hops.key path := by
  obtain ⟨entries, hmatches⟩ := h
  have hmem := member?_mem hfound
  rw [hmatches.recorded] at hmem
  obtain ⟨⟨other, found⟩, hother, hentry⟩ := List.mem_map.mp hmem
  refine ⟨other, hmatches.ne_nil hother, ?_, (Prod.mk.inj hentry).1⟩
  exact hmatches.paths other ((hmatches.complete other).mp (List.mem_map_of_mem hother))

/-- Rows that are the same as others that are the same as further ones. -/
theorem SameRows.trans {hops hops' : Hops} {tables tables' tables'' : Tables E}
    (h : SameRows collection hops hops' tables tables')
    (hnext : SameRows collection hops' hops' tables' tables'') :
    SameRows collection hops hops' tables tables'' := by
  refine ⟨h.root.trans hnext.root, fun path hop hop' hfound hfound' => ?_⟩
  obtain ⟨hcollection, hrow⟩ := h.hop path hop hop' hfound hfound'
  exact ⟨hcollection, hrow.trans (hnext.hop path hop' hop' hfound' hfound').2⟩

/-- A statement that joins what another one joins, on the same collection, and has a condition that
the same rows meet. -/
structure Scope.Widens (s : Schema) (db : Database E) (collection : String)
    (scope scope' : Scope) : Prop where
  joins : scope.Joins s db collection
  joins' : scope'.Joins s db collection
  records : ∀ path, path ≠ [] → IsPath path → (scope'.hops.get? path).isSome →
    (scope.hops.get? path).isSome
  spelled : ∀ path hop, scope'.hops.get? path = some hop →
    ∃ other, other ≠ [] ∧ IsPath other ∧ Hops.key other = Hops.key path
  alike : ∀ tables tables' : Tables E, SameRows collection scope.hops scope'.hops tables tables' →
    meets db tables scope.query.condition = meets db tables' scope'.query.condition

/-- A statement puts rows side by side at its paths that meet its condition. -/
def Scope.Accepts (db : Database E) (collection : String) (scope : Scope) (rows : Placed E) :
    Prop :=
  ∃ tables ∈ joinTables db [(collection, rows [])] scope.query.joins,
    Places collection scope.hops tables rows ∧ meets db tables scope.query.condition = true

/-- Only the rows at the paths of the statement matter. -/
theorem Scope.Accepts.congr {rows rows' : Placed E} (h : scope.Accepts db collection rows)
    (hroot : rows [] = rows' [])
    (hsame : ∀ path hop, path ≠ [] → IsPath path → scope.hops.get? path = some hop →
      rows path = rows' path) :
    scope.Accepts db collection rows' := by
  obtain ⟨tables, hmem, hplaces, hmeets⟩ := h
  refine ⟨tables, hroot ▸ hmem, ⟨hplaces.root.trans hroot, ?_⟩, hmeets⟩
  exact fun path hop hne hpath hfound =>
    (hplaces.hop path hop hne hpath hfound).trans (hsame path hop hne hpath hfound)

namespace Scope.Widens

variable {scope' : Scope} {tables tables' : Tables E} {rows : Placed E}

/-- Tables of the narrower statement stand for the rows of the wider one. -/
theorem places (h : scope.Widens s db collection scope')
    (hsame : SameRows collection scope.hops scope'.hops tables tables')
    (hplaces : Places collection scope.hops tables rows) :
    Places collection scope'.hops tables' rows := by
  refine ⟨hsame.root.symm.trans hplaces.root, fun path hop' hne hpath hfound' => ?_⟩
  obtain ⟨hop, hfound⟩ := Option.isSome_iff_exists.mp
    (h.records path hne hpath (Option.isSome_of_eq_some hfound'))
  exact (hsame.hop path hop hop' hfound hfound').2.symm.trans
    (hplaces.hop path hop hne hpath hfound)

/-- Tables of the narrower statement that stand for the same rows are the same rows. -/
theorem sameRows_of_places (h : scope.Widens s db collection scope')
    (hplaces : Places collection scope'.hops tables rows)
    (hplaces' : Places collection scope'.hops tables' rows) :
    SameRows collection scope'.hops scope'.hops tables tables' := by
  refine ⟨hplaces.root.trans hplaces'.root.symm, fun path hop hop' hfound hfound' => ?_⟩
  obtain rfl := Option.some.inj (hfound.symm.trans hfound')
  obtain ⟨other, hne, hother, hkey⟩ := h.spelled path hop hfound
  rw [Hops.get?, ← hkey, ← Hops.get?] at hfound
  exact ⟨rfl, (hplaces.hop other hop hne hother hfound).trans
    (hplaces'.hop other hop hne hother hfound).symm⟩

/-- Tables of the wider statement meet its condition if the narrower one accepts their rows. -/
theorem accepts_iff {row : Row E} (h : scope.Widens s db collection scope')
    (hmem : tables ∈ joinTables db [(collection, row)] scope.query.joins)
    (hplaces : Places collection scope.hops tables rows) :
    scope'.Accepts db collection rows ↔ meets db tables scope.query.condition = true := by
  obtain ⟨hroot, hfits⟩ := h.joins.fits [] row tables hmem
  obtain ⟨found, hfound, hsame⟩ := h.joins'.follows scope tables hfits []
  rw [hplaces.root] at hfound
  have hplaced := h.places hsame.symm hplaces
  constructor
  · rintro ⟨tables', -, hplaces', hmeets⟩
    rw [h.alike tables tables' (hsame.symm.trans (h.sameRows_of_places hplaced hplaces'))]
    exact hmeets
  · intro hmeets
    exact ⟨found, hfound, hplaced, (h.alike tables found hsame.symm).symm.trans hmeets⟩

/-- So do those of the narrower statement itself. -/
theorem accepts_iff' {row : Row E} (h : scope.Widens s db collection scope')
    (hmem : tables' ∈ joinTables db [(collection, row)] scope'.query.joins)
    (hplaces : Places collection scope'.hops tables' rows) :
    scope'.Accepts db collection rows ↔ meets db tables' scope'.query.condition = true := by
  obtain ⟨hroot, hfits⟩ := h.joins'.fits [] row tables' hmem
  obtain ⟨found, -, hsame⟩ := h.joins.follows scope' tables' hfits []
  have hrow : rows [] = row := hplaces.root.symm.trans hroot
  constructor
  · rintro ⟨other, -, hother, hmeets⟩
    have hnext := hsame.trans (h.sameRows_of_places hplaces hother)
    rw [← h.alike found tables' hsame, h.alike found other hnext]
    exact hmeets
  · intro hmeets
    exact ⟨tables', hrow ▸ hmem, hplaces, hmeets⟩

open Classical in
/-- A statement that joins more links, to one row each, returns every row equally often. -/
theorem length_copies_eq (h : scope.Widens s db collection scope')
    (htallies : scope.Tallies s db collection walked)
    (htallies' : scope'.Tallies s db collection walked')
    (hsingle : ∀ path ∈ walked, path ∉ walked' → ∀ row, ∃ found,
      s.besideAt db collection path row = [found]) (row : Row E) :
    (scope.query.copies db collection row).length =
      (scope'.query.copies db collection row).length := by
  let count (rows : Placed E) : Nat := (decide (scope'.Accepts db collection rows)).toNat
  have hmem (path : List String) (hpath : path ∈ walked') : path ∈ walked := by
    obtain ⟨hne, hsegments⟩ := htallies'.paths path hpath
    exact (htallies.recorded path hne hsegments).mp
      (h.records path hne hsegments ((htallies'.recorded path hne hsegments).mpr hpath))
  -- at the paths that the narrower statement does not join nothing is looked at
  have hcount (rows rows' : Placed E)
      (hsame : ∀ path, path ∈ walked' ∨ path ∉ walked → rows path = rows' path) :
      count rows = count rows' := by
    have hroot : rows [] = rows' [] := hsame [] (.inr fun hnil => (htallies.paths [] hnil).1 rfl)
    have hplaced (path : List String) (hop : Hop) (hne : path ≠ []) (hpath : IsPath path)
        (hfound : scope'.hops.get? path = some hop) : rows path = rows' path :=
      hsame path (.inl ((htallies'.recorded path hne hpath).mp (Option.isSome_of_eq_some hfound)))
    refine congrArg Bool.toNat (decide_eq_decide.mpr ⟨fun h => h.congr hroot hplaced, fun h => ?_⟩)
    exact h.congr hroot.symm fun path hop hne hpath hfound =>
      (hplaced path hop hne hpath hfound).symm
  have hwide := htallies.tallied [] (fun tables =>
    (meets db tables scope.query.condition).toNat) count (fun _ => row)
    fun tables htables rows hplaces => congrArg Bool.toNat
      (Bool.eq_iff_iff.mpr ((h.accepts_iff htables hplaces).symm.trans decide_eq_true_iff.symm))
  have hnarrow := htallies'.tallied [] (fun tables =>
    (meets db tables scope'.query.condition).toNat) count (fun _ => row)
    fun tables htables rows hplaces => congrArg Bool.toNat
      (Bool.eq_iff_iff.mpr ((h.accepts_iff' htables hplaces).symm.trans decide_eq_true_iff.symm))
  rw [Sql.Query.copies, Sql.Query.copies, length_filter_eq_sum, length_filter_eq_sum, hwide,
    hnarrow]
  exact tally_eq_of_single htallies.walk htallies'.walk hmem
    (fun path hpath hparent => (htallies'.closed path hpath).resolve_left
      (htallies.paths _ hparent).1) hsingle hcount _

/-- So do statements of whole rows, the wider of which joins links to several rows only where the
narrower one does. -/
theorem output_perm {names' : Nat → String} (hkeys : s.HasKeys db) (htexts : s.HasKeyTexts db)
    (h : scope.Widens s db collection scope')
    (halong : (s.context options names).JoinsAlong false collection paths scope)
    (halong' : (s.context options names').JoinsAlong false collection paths' scope')
    (hwithin : ∀ path, (s.context options names).JoinsPrefix false collection paths path →
      (s.context options names).JoinsSeveral false collection path →
        (s.context options names).JoinsPrefix false collection paths' path)
    (hitems : scope.query.items = [⟨.allColumns (some collection), none⟩])
    (hitems' : scope'.query.items = [⟨.allColumns (some collection), none⟩])
    (hsource : scope.query.source = some ⟨collection, none⟩)
    (hsource' : scope'.query.source = some ⟨collection, none⟩)
    (hgroups : scope.query.groups = []) (hgroups' : scope'.query.groups = []) :
    (scope.query.output db []).Perm (scope'.query.output db []) := by
  obtain ⟨walked, htallies⟩ := h.joins.tallies
  obtain ⟨walked', htallies'⟩ := h.joins'.tallies
  have hsingle (path : List String) (hpath : path ∈ walked) (hnew : path ∉ walked')
      (row : Row E) : ∃ found, s.besideAt db collection path row = [found] := by
    refine htallies.besideAt_eq_singleton hkeys htexts halong hpath (fun hseveral => hnew ?_) row
    exact (htallies'.mem_iff halong').mpr
      (hwithin path ((htallies.mem_iff halong).mp hpath) hseveral)
  rw [output_eq_copies h.joins hitems hsource hgroups,
    output_eq_copies h.joins' hitems' hsource' hgroups']
  refine .of_eq (List.flatMap_congr fun row _ => ?_)
  rw [h.length_copies_eq htallies htallies' hsingle row]

end Scope.Widens

/-! ## Paths of other contexts -/

namespace Context

variable {c c' : Context}

/-- Where a path leads depends on the relations only. -/
theorem joinsPrefix_congr {inner : Bool} (h : c.relations = c'.relations) {path : List String} :
    c.JoinsPrefix inner collection paths path ↔ c'.JoinsPrefix inner collection paths path := by
  have honward : c.onward? inner = c'.onward? inner := by
    funext place segment
    rw [onward?, onward?, link_congr h]
  have htarget : c.prefixTarget? inner collection path =
      c'.prefixTarget? inner collection path := by
    rw [prefixTarget?, prefixTarget?, honward]
    simp only [joinedTarget?, link_congr h]
  simp only [JoinsPrefix, JoinsUpTo, htarget]

end Context

/-! ## Requests -/

namespace Context

variable {c : Context} {r : Request}

/-- A path joins links to several rows only where other paths do. -/
def SeveralWithin (c : Context) (collection : String) (paths : List (List String))
    (path : List String) : Prop :=
  ∀ before, before <+: path.dropLast → c.JoinsSeveral false collection before →
    c.JoinsPrefix false collection paths before

instance (path : List String) : Decidable (c.SeveralWithin collection paths path) :=
  decidable_of_iff (∀ before ∈ path.dropLast.inits, c.JoinsSeveral false collection before →
      c.JoinsPrefix false collection paths before) (by
    simp only [List.mem_inits, SeveralWithin])

theorem severalWithin_of_mem {path : List String} (h : path ∈ paths) :
    c.SeveralWithin collection paths path :=
  fun _ hinitial hseveral => ⟨path, h, hinitial, prefixTarget?_of_joinsSeveral hseveral⟩

/-- The paths of a request without groups and aggregations. -/
theorem walkedPaths_whole (hgroup : r.group = []) (haggregate : r.aggregate = []) :
    c.walkedPaths collection r = r.sort.map sortPath ++ c.requestPaths collection r := by
  simp [walkedPaths, hgroup, haggregate]

end Context

/-- Joins that match the prefixes of fewer paths record no more of them. -/
theorem Context.JoinsAlong.records {c c' : Context} {scope' : Scope}
    (h : c.JoinsAlong false collection paths scope)
    (h' : c'.JoinsAlong false collection paths' scope')
    (hsub : ∀ path, c'.JoinsPrefix false collection paths' path →
      c.JoinsPrefix false collection paths path) (path : List String) (hne : path ≠ [])
    (hpath : IsPath path) (hfound : (scope'.hops.get? path).isSome) :
    (scope.hops.get? path).isSome :=
  (h.isSome_get?_iff hpath hne).mpr (hsub path ((h'.isSome_get?_iff hpath hne).mp hfound))

/-- A statement of the whole rows of a collection. -/
def Sql.Query.whole (collection : String) : Query :=
  Query.selectAllOf { source := some ⟨collection, none⟩ } collection

/-- A request without groups and aggregations projects whole rows, and keeps its row window. -/
theorem whole_of_apply {r : Request} {applied : Applied} {k k' : Nat} (hgroup : r.group = [])
    (haggregate : r.aggregate = [])
    (h : ((s.context options names).apply collection (Compiler.target collection r) r false).Gives k
      applied k') :
    applied.query.items = [⟨.allColumns (some collection), none⟩] ∧ applied.query.groups = [] ∧
      applied.query.window = (Query.narrow (.whole collection) (options.window r)).window := by
  obtain ⟨info, scope, items, k₁, k₂, -, hprojected, hitems, -, hgroups, hwindow⟩ :=
    Context.projections_of_apply hgroup h
  rw [haggregate, List.mapM_nil, Compile.gives_pure] at hprojected
  have hsummary : r.isSummary = false := by simp [Request.isSummary, hgroup, haggregate]
  have htarget : Compiler.target collection r = .whole collection := by
    rw [Compiler.target, hsummary]
    rfl
  rw [hprojected.1, htarget] at hitems
  rw [htarget] at hgroups hwindow
  exact ⟨hitems, hgroups, hwindow⟩

/-- A compiled request widens another one with the same search and a filter that means the same, if
it joins what the other one does. -/
theorem widens_of_apply {r r' : Request} {names' : Nat → String} {declared : Collection}
    {q q' : Query} {applied applied' : Applied} {k k' : Nat}
    (hinjective : Function.Injective names) (hinjective' : Function.Injective names')
    (hc : s.collection? collection = some declared) (havoids : s.AvoidsAliases names k)
    (havoids' : s.AvoidsAliases names' k') (hjoins : q.joins = []) (hjoins' : q'.joins = [])
    (hcondition : q.condition = none) (hcondition' : q'.condition = none)
    (hsearch : r'.search = r.search)
    (hfilters : FiltersAgree s options names names' db collection r.filter r'.filter)
    (hsub : ∀ path, (s.context options names').JoinsPrefix false collection
        ((s.context options names').walkedPaths collection r') path →
      (s.context options names).JoinsPrefix false collection
        ((s.context options names).walkedPaths collection r) path)
    (h : ((s.context options names).apply collection q r false).Gives 0 applied k)
    (h' : ((s.context options names').apply collection q' r' false).Gives 0 applied' k') :
    ∃ hops hops', Scope.Widens s db collection ⟨applied.query, hops⟩ ⟨applied'.query, hops'⟩ ∧
      (s.context options names).JoinsAlong false collection
        ((s.context options names).walkedPaths collection r) ⟨applied.query, hops⟩ ∧
      (s.context options names').JoinsAlong false collection
        ((s.context options names').walkedPaths collection r') ⟨applied'.query, hops'⟩ := by
  obtain ⟨hops, hops', hall, hall', halong, halong', halike⟩ := alike_of_apply hinjective
    hinjective' hc havoids havoids' hjoins hjoins' hcondition hcondition' hsearch hfilters h h'
  exact ⟨hops, hops', ⟨hall, hall', halong.records halong' hsub, fun _ _ => halong'.spelled,
    fun tables tables' hsame => meets_eq_of_truthOn (halike tables tables' hsame)⟩, halong,
    halong'⟩

/-- Two requests for whole rows with the same search and with filters that mean the same return the
same rows, each as often, if one joins what the other one does and, besides, links to one row only,
and no alias is spelled like a collection. -/
theorem output_perm_of_compile {letters letters' : Alias.Letters} {q q' : Query} (r r' : Request)
    (hkeys : s.HasKeys db) (htexts : s.HasKeyTexts db) (hgroup : r.group = [])
    (haggregate : r.aggregate = []) (hgroup' : r'.group = []) (haggregate' : r'.aggregate = [])
    (hsearch : r'.search = r.search)
    (hfilters : FiltersAgree s options (s.compiler options letters).names
      (s.compiler options letters').names db collection r.filter r'.filter)
    (hsub : (s.context options (s.compiler options letters).names).walkedPaths collection r' ⊆
      (s.context options (s.compiler options letters).names).walkedPaths collection r)
    (hwithin : ∀ path ∈ (s.context options (s.compiler options letters).names).walkedPaths
      collection r, (s.context options (s.compiler options letters).names).SeveralWithin collection
        ((s.context options (s.compiler options letters).names).walkedPaths collection r') path)
    (havoids : ∀ name ∈ (s.compiler options letters).issued collection r,
      s.collection? name = none)
    (havoids' : ∀ name ∈ (s.compiler options letters').issued collection r',
      s.collection? name = none)
    (h : (s.compiler options letters).compile collection r = .ok q)
    (h' : (s.compiler options letters').compile collection r' = .ok q') :
    (q.output db []).Perm (q'.output db []) ∧
      q.window = (Query.narrow (.whole collection) (options.window r)).window ∧
      q'.window = (Query.narrow (.whole collection) (options.window r')).window := by
  have hsource := (isStatement_of_compile h).source
  have hsource' := (isStatement_of_compile h').source
  obtain ⟨applied, k, happly, hfresh, rfl⟩ := apply_of_compile havoids h
  obtain ⟨applied', k', happly', hfresh', rfl⟩ := apply_of_compile havoids' h'
  obtain ⟨info, hinfo⟩ := Context.collection_of_apply happly
  obtain ⟨declared, hc, -⟩ := Option.map_eq_some_iff.mp (Except.ok.inj hinfo)
  have hinjective (letters : Alias.Letters) :
      Function.Injective (s.compiler options letters).names := Alias.names_injective _ _ letters
  obtain ⟨hitems, hgroups, hwindow⟩ := whole_of_apply hgroup haggregate happly
  obtain ⟨hitems', hgroups', hwindow'⟩ := whole_of_apply hgroup' haggregate' happly'
  -- the paths do not depend on the aliases
  have hpaths : (s.context options (s.compiler options letters').names).walkedPaths collection r' =
      (s.context options (s.compiler options letters).names).walkedPaths collection r' :=
    Context.walkedPaths_congr (s.relations_context options options _ _) collection r'
  obtain ⟨hops, hops', hwidens, halong, halong'⟩ := widens_of_apply (hinjective letters)
    (hinjective letters') hc hfresh hfresh' (Compiler.target_joins collection r)
    (Compiler.target_joins collection r') (Compiler.target_condition collection r)
    (Compiler.target_condition collection r') hsearch hfilters
    (fun path hinitial => by
      obtain ⟨walked, hwalked, hjoined⟩ := (Context.joinsPrefix_congr
        (s.relations_context options options _ (s.compiler options letters).names)).mp hinitial
      exact ⟨walked, hsub (hpaths ▸ hwalked), hjoined⟩) happly happly'
  refine ⟨hwidens.output_perm hkeys htexts halong halong' ?_ hitems hitems' hsource hsource'
    hgroups hgroups', hwindow, hwindow'⟩
  rintro before ⟨path, hpath, hinitial, -⟩ hseveral
  rw [hpaths]
  exact hwithin path hpath before hinitial hseveral

/-- Requests that return different numbers of rows, without a row window and without an alias that
is spelled like a collection, do not return the same rows. -/
theorem exists_not_perm {compiler : Compiler} {r r' : Request} {n n' : Nat} (hdifferent : n ≠ n')
    (h : (compiler.compile collection r).toOption.map (fun q => ((q.output db []).length,
      q.window.isNone, q.introduced.all fun name => (s.collection? name).isNone)) =
        some (n, true, true))
    (h' : (compiler.compile collection r').toOption.map (fun q => ((q.output db []).length,
      q.window.isNone)) = some (n', true)) :
    ∃ q q', compiler.compile collection r = .ok q ∧ compiler.compile collection r' = .ok q' ∧
      q.window = none ∧ q'.window = none ∧
      (∀ name ∈ q.introduced, s.collection? name = none) ∧
      ¬ (q.output db []).Perm (q'.output db []) := by
  obtain ⟨q, hq, hall⟩ := Compiler.exists_compile_with h
  obtain ⟨q', hq', hall'⟩ := Compiler.exists_compile_with h'
  simp only [Prod.mk.injEq, Option.isNone_iff_eq_none, List.all_eq_true] at hall hall'
  refine ⟨q, q', hq, hq', hall.2.1, hall'.2, hall.2.2, fun hperm => hdifferent ?_⟩
  rw [← hall.1, ← hall'.1, hperm.length_eq]

/-- A blog with two comments on one article. -/
def Database.busy : Database Engine.literals
  | "comments" =>
    [Database.blog.rowOf [("id", .int 1), ("article", .int 1), ("body", .string "x")],
      Database.blog.rowOf [("id", .int 2), ("article", .int 1), ("body", .string "y")]]
  | collection => Database.blog collection

theorem hasKeys_busy : Schema.blog.HasKeys Database.busy :=
  Schema.hasKeys_of_forall (by decide +kernel)

theorem hasKeyTexts_busy : Schema.blog.HasKeyTexts Database.busy :=
  Schema.hasKeyTexts_of_forall (by decide +kernel)

end JsonSql
