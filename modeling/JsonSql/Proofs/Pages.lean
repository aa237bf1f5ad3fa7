import JsonSql.Proofs.Carried
import JsonSql.Proofs.FewerClauses
import JsonSql.Proofs.Lockstep
import JsonSql.Proofs.Projections
import JsonSql.Proofs.Windows

set_option autoImplicit false

/-!
# Pages

The row window of a request.  Its limit stays within the bound of the options, and a page of so many
rows begins where the page before it ends (`IsPaged`).  The pages of a request are one statement but
for their windows (`compile_page`).  Offsets stop at the greatest integer of 64 bits, and are
written up to the greatest signed one; short of that the pages of a result are all of it, one after
another (`Tiles`).
-/

namespace JsonSql

open JsonSql.Sql
open Compile (InStep inStep_pure inStep_throw inStep_refl inStep_foldlM inStep_mapM)

/-! ## Limits and offsets -/

section Limits

variable {o : Options} {r : Request}

/-- The limit that a request asks for, or else the one of the options. -/
def Options.requestedLimit (o : Options) (r : Request) : Int := r.limit.getD o.defaultLimit

theorem Options.window_limit (o : Options) (r : Request) :
    (o.window r).limit = (o.effectiveLimit r.limit).toNat? := by
  unfold window
  dsimp only
  cases o.effectiveLimit r.limit <;> rfl

/-- A bound is the limit of the requests that ask for more, or for all. -/
theorem Options.effectiveLimit_of_exceeds
    (h : 0 ≤ o.maxLimit ∧ (o.requestedLimit r < 0 ∨ o.maxLimit < o.requestedLimit r)) :
    o.effectiveLimit r.limit = o.maxLimit := if_pos h

/-- Any other limit is kept. -/
theorem Options.effectiveLimit_of_within
    (h : ¬(0 ≤ o.maxLimit ∧ (o.requestedLimit r < 0 ∨ o.maxLimit < o.requestedLimit r))) :
    o.effectiveLimit r.limit = o.requestedLimit r := if_neg h

theorem toNat?_eq_none_iff {i : Int} : i.toNat? = none ↔ i < 0 := by
  cases i with
  | ofNat m => simp [Int.toNat?]
  | negSucc m => simp [Int.toNat?]

/-- The row window that a request asks for under options. -/
structure Options.IsPaged (o : Options) (r : Request) (w : Window) : Prop where
  /-- under a bound there is always a limit, and it is within the bound -/
  bounded : 0 ≤ o.maxLimit → ∃ n : Nat, w.limit = some n ∧ (n : Int) ≤ o.maxLimit
  /-- without a bound there is a limit unless none is asked for -/
  unbounded : o.maxLimit < 0 → (w.limit = none ↔ o.requestedLimit r < 0)
  /-- a limit within the bound is kept -/
  kept : ∀ n : Nat, o.requestedLimit r = n → o.maxLimit < 0 ∨ (n : Int) ≤ o.maxLimit →
    w.limit = some n
  /-- a page begins behind the pages before it, of as many rows each -/
  paged : ∀ l page, w.limit = some l → 0 < l → r.page = some page →
    w.offset = some (min (l * (max page 1 - 1)) (Decimal.nat64Limit - 1))
  /-- without pages, or rows to make them of, the offset is kept -/
  unpaged : r.page = none ∨ w.limit = none ∨ w.limit = some 0 → w.offset = r.offset

theorem Options.window_offset_of_page {l page : Nat} (hlimit : (o.window r).limit = some l)
    (hl : 0 < l) (hpage : r.page = some page) :
    (o.window r).offset = some (min (l * (max page 1 - 1)) (Decimal.nat64Limit - 1)) := by
  have hfirst : max page 1 - 1 = page - 1 := by omega
  obtain ⟨l, rfl⟩ := Nat.exists_eq_succ_of_ne_zero hl.ne'
  rw [window] at hlimit ⊢
  dsimp only at hlimit ⊢
  rw [hlimit, hpage, hfirst]
  rfl

theorem Options.window_offset_of_unpaged
    (h : r.page = none ∨ (o.window r).limit = none ∨ (o.window r).limit = some 0) :
    (o.window r).offset = r.offset := by
  rw [window] at h ⊢
  dsimp only at h ⊢
  rcases h with h | h | h
  · rw [h]
    split <;> simp_all
  · rw [h]
  · rw [h]

theorem Options.isPaged_window (o : Options) (r : Request) : o.IsPaged r (o.window r) where
  bounded hbound := by
    rw [o.window_limit r]
    by_cases h : 0 ≤ o.maxLimit ∧ (o.requestedLimit r < 0 ∨ o.maxLimit < o.requestedLimit r)
    · rw [effectiveLimit_of_exceeds h]
      obtain ⟨n, hn⟩ := Int.eq_ofNat_of_zero_le hbound
      exact ⟨n, Int.mem_toNat?.mpr hn, Int.le_of_eq hn.symm⟩
    · rw [effectiveLimit_of_within h]
      obtain ⟨n, hn⟩ := Int.eq_ofNat_of_zero_le (a := o.requestedLimit r) (by omega)
      exact ⟨n, Int.mem_toNat?.mpr hn, by omega⟩
  unbounded hbound := by
    rw [o.window_limit r, effectiveLimit_of_within (by omega), toNat?_eq_none_iff]
  kept n hn hwithin := by
    rw [o.window_limit r, effectiveLimit_of_within (by omega), Int.mem_toNat?, hn]
  paged _ _ := window_offset_of_page
  unpaged := window_offset_of_unpaged

end Limits

/-! ## Written offsets -/

theorem Sql.Window.writes_offset {w : Window} {m : Nat} (h : w.offset = some m) (d : Dialect) :
    ∃ before behind, w.tokens d =
      before ++ [.keyword .offset, .space, rowCount m] ++ behind := by
  obtain ⟨limit, offset⟩ := w
  obtain rfl : offset = some m := h
  cases d with
  | postgres | sqlite | duckdb =>
    cases limit with
    | none => exact ⟨[], [], rfl⟩
    | some l => exact ⟨[.keyword .limit, .space, rowCount l, .space], [], rfl⟩
  | mysql =>
    cases limit with
    | none => exact ⟨[.keyword .limit, .space, .raw unboundedLimit, .space], [], rfl⟩
    | some l => exact ⟨[.keyword .limit, .space, rowCount l, .space], [], rfl⟩
  | tsql => exact ⟨[], _, rfl⟩

/-- An offset is written in every dialect, as far as it can be. -/
theorem Sql.Query.writes_offset {q : Query} {m : Nat} (h : (q.window.getD {}).offset = some m)
    (d : Dialect) :
    ∃ before behind, q.tokens d =
      before ++ [.keyword .offset, .space, .int (min m (Decimal.int64Limit - 1) : Nat)] ++
        behind := by
  cases hwindow : q.window with
  | none =>
    rw [hwindow] at h
    cases h
  | some w =>
    rw [hwindow, Option.getD_some] at h
    obtain ⟨before, behind, hwritten⟩ := Window.writes_offset h d
    have hwhole := tokens_windowed (d := d) q w
    have hsame : ({ q with window := some w } : Query) = q := by
      obtain ⟨items, source, joins, condition, groups, orders, window⟩ := q
      exact congrArg (Query.mk items source joins condition groups orders) hwindow.symm
    have hassoc (first ordering offset : List Token) :
        first ++ (ordering ++ .newline :: (before ++ offset ++ behind)) =
          first ++ (ordering ++ .newline :: before) ++ offset ++ behind := by simp
    rw [hsame, windowTokens, hwritten, hassoc] at hwhole
    exact ⟨_, behind, hwhole⟩

/-! ## Statements but for their windows -/

/-- A statement that is being built, with another row window. -/
def Scope.windowed (window : Option Window) (scope : Scope) : Scope :=
  { scope with query := { scope.query with window } }

/-- Windows that are put into a statement leave the rest of it as it is. -/
theorem Query.narrow_windowed (q : Query) (w w' : Window) :
    Query.narrow q w' = { Query.narrow q w with window := (Query.narrow q w').window } := by
  obtain ⟨window, hw⟩ := Query.narrow_eq q w
  obtain ⟨window', hw'⟩ := Query.narrow_eq q w'
  rw [hw, hw']

/-- A statement without a window gets the one that is put into it. -/
theorem Query.window_narrow {q : Query} (h : q.window = none) (w : Window) :
    (Query.narrow q w).window.getD {} = w := by
  obtain ⟨limit, offset⟩ := w
  cases limit <;> cases offset <;> simp [narrow, Query.setLimit, Query.setOffset, h]

namespace Context

variable {c : Context} {inner : Bool} {collection : String} {window : Option Window}

/-- Two steps give the same statement but for its window. -/
abbrev SameButWindow (window : Option Window) (scope scope' : Scope) : Prop :=
  scope' = scope.windowed window

/-- Two steps give the same statement but for its window, and the same besides. -/
abbrev FoundButWindow {α : Type} (window : Option Window) (found found' : Scope × α) : Prop :=
  found' = (found.1.windowed window, found.2)

theorem inStep_join_windowed {scope : Scope} {path : List String} {place : Place}
    {segment : String} {link : Link} :
    InStep True (FoundButWindow window) (c.join scope path place segment link)
      (c.join (scope.windowed window) path place segment link) := by
  unfold join
  refine (inStep_refl _).bind fun name _ hname => ?_
  subst hname
  refine (inStep_refl _).bind fun target _ htarget => ?_
  subst htarget
  exact inStep_pure rfl

theorem inStep_joinFrom_windowed {segments : List String} :
    ∀ {before : List String} {place : Place} {scope : Scope},
      InStep True (FoundButWindow window)
        (c.joinFrom inner place before scope segments)
        (c.joinFrom inner place before (scope.windowed window) segments) := by
  induction segments with
  | nil => exact inStep_pure rfl
  | cons segment segments ih =>
    intro before place scope
    cases segments with
    | nil => exact inStep_pure rfl
    | cons next rest =>
      rw [joinFrom_cons, joinFrom_cons]
      split
      · exact inStep_pure rfl
      · rw [show (scope.windowed window).hops = scope.hops from rfl]
        cases scope.hops.get? (before ++ [segment]) with
        | some hop =>
          dsimp only
          split
          · exact ih
          · exact inStep_pure rfl
        | none =>
          dsimp only
          split
          · refine inStep_join_windowed.bind fun joined _ hjoined => ?_
            subst hjoined
            dsimp only
            split
            · refine ih.bind fun led _ hled => ?_
              subst hled
              exact inStep_pure rfl
            · exact inStep_pure rfl
          · exact inStep_pure rfl

theorem inStep_joinPaths_windowed (paths : List (List String)) :
    ∀ {scope : Scope}, InStep True (FoundButWindow window)
      (c.joinPaths inner collection scope paths)
      (c.joinPaths inner collection (scope.windowed window) paths) := by
  induction paths with
  | nil => exact inStep_pure rfl
  | cons path rest ih =>
    intro scope
    rw [joinPaths, joinPaths]
    refine inStep_joinFrom_windowed.bind fun first _ hfirst => ?_
    subst hfirst
    refine ih.bind fun last _ hlast => ?_
    subst hlast
    exact inStep_pure rfl

theorem inStep_joinedColumn_windowed {scope : Scope} {key : String} :
    InStep True (FoundButWindow window)
      (c.joinedColumn collection scope key)
      (c.joinedColumn collection (scope.windowed window) key) := by
  unfold joinedColumn
  refine inStep_joinFrom_windowed.bind fun joined _ hjoined => ?_
  subst hjoined
  refine (inStep_refl _).bind fun column _ hcolumn => ?_
  subst hcolumn
  exact inStep_pure rfl

theorem inStep_sortBy_windowed {scope : Scope} {entry : String} :
    InStep True (SameButWindow window) (c.sortBy collection scope entry)
      (c.sortBy collection (scope.windowed window) entry) := by
  unfold sortBy
  refine (inStep_refl _).bind fun key _ hkey => ?_
  subst hkey
  refine inStep_joinedColumn_windowed.bind fun found _ hfound => ?_
  subst hfound
  exact inStep_pure rfl

theorem inStep_groupBy_windowed {scope : Scope} {key : String} :
    InStep True (SameButWindow window) (c.groupBy collection scope key)
      (c.groupBy collection (scope.windowed window) key) := by
  unfold groupBy
  refine inStep_joinedColumn_windowed.bind fun found _ hfound => ?_
  subst hfound
  exact inStep_pure rfl

theorem inStep_searchStage_windowed {r : Request} {scope : Scope} :
    InStep True (SameButWindow window) (c.searchStage collection r scope)
      (c.searchStage collection r (scope.windowed window)) := by
  unfold searchStage
  split
  · exact inStep_pure rfl
  · unfold search
    refine InStep.map (R := fun q q' : Query => q' = { q with window }) ?_
      fun q q' hq => by rw [hq]; rfl
    refine (inStep_refl _).bind fun fields _ hfields => ?_
    subst hfields
    exact inStep_pure rfl

theorem inStep_filterStage_windowed {r : Request} {scope : Scope} :
    InStep True (FoundButWindow window)
      (c.filterStage collection inner r scope)
      (c.filterStage collection inner r (scope.windowed window)) := by
  unfold filterStage
  split
  · exact inStep_pure rfl
  · rw [restrict_eq, restrict_eq, addFilter, addFilter, joinFilter_eq, joinFilter_eq]
    unfold restricted
    refine (inStep_joinPaths_windowed _).bind fun joined _ hjoined => ?_
    subst hjoined
    refine (inStep_refl _).bind fun e? _ he => ?_
    subst he
    cases e? <;> exact inStep_pure rfl

theorem inStep_aggregateStage_windowed {info : CollectionInfo} {r : Request} {scope : Scope} :
    InStep True (SameButWindow window) (c.aggregateStage info r scope)
      (c.aggregateStage info r (scope.windowed window)) := by
  unfold aggregateStage
  split
  · exact inStep_pure rfl
  · unfold addAggregate
    have hjoins : InStep True (SameButWindow window)
        (c.joinAggregate info.name scope r.aggregate)
        (c.joinAggregate info.name (scope.windowed window) r.aggregate) := by
      refine inStep_foldlM (fun field _ before _ hbefore => ?_) rfl
      subst hbefore
      exact inStep_joinFrom_windowed.map fun found _ hfound => by rw [hfound]
    refine hjoins.bind fun joined _ hjoined => ?_
    subst hjoined
    refine (inStep_refl _).bind fun items _ hitems => ?_
    subst hitems
    rw [foldl_addItem, foldl_addItem]
    exact inStep_pure rfl

/-- Two requests that differ in what their windows are made of have the same statement but for the
window. -/
theorem inStep_apply_windowed {q : Query} {r r' : Request} (hsort : r'.sort = r.sort)
    (hsearch : r'.search = r.search) (hgroup : r'.group = r.group) (hfilter : r'.filter = r.filter)
    (haggregate : r'.aggregate = r.aggregate)
    (hwindow : (Query.narrow q (c.options.window r')).window = window) :
    InStep True (fun applied applied' =>
        applied'.query = { applied.query with window } ∧
          applied'.repeatsRows = applied.repeatsRows)
      (c.apply collection q r false) (c.apply collection q r' false) := by
  rw [apply_eq, apply_eq]
  refine (inStep_refl _).bind fun info _ hinfo => ?_
  subst hinfo
  have horder : InStep True (SameButWindow window) (c.orderStage collection false r q)
      (c.orderStage collection false r' q) := by
    rw [orderStage, orderStage, if_neg Bool.false_ne_true, if_neg Bool.false_ne_true, hsort]
    refine inStep_foldlM (fun entry _ before _ hbefore => ?_) ?_
    · subst hbefore
      exact inStep_sortBy_windowed
    · rw [SameButWindow, ← hwindow]
      exact congrArg Scope.mk (Query.narrow_windowed q _ _) ▸ rfl
  refine horder.bind fun ordered _ hordered => ?_
  subst hordered
  have hsearched : c.searchStage collection r' = c.searchStage collection r := by
    funext scope
    rw [searchStage, searchStage, hsearch]
  rw [hsearched, hgroup]
  refine inStep_searchStage_windowed.bind fun searched _ hsearched => ?_
  subst hsearched
  refine (inStep_foldlM (T := SameButWindow window) (fun key _ before _ hbefore => ?_) rfl).bind
    fun grouped _ hgrouped => ?_
  · subst hbefore
    exact inStep_groupBy_windowed
  subst hgrouped
  have hfiltered : c.filterStage collection false r' = c.filterStage collection false r := by
    funext scope
    rw [filterStage, filterStage, hfilter]
  rw [hfiltered]
  refine inStep_filterStage_windowed.bind fun filtered _ hfiltered => ?_
  subst hfiltered
  have haggregated : c.aggregateStage info r' = c.aggregateStage info r := by
    funext scope
    rw [aggregateStage, aggregateStage, haggregate]
  rw [haggregated]
  refine inStep_aggregateStage_windowed.bind fun summed _ hsummed => ?_
  subst hsummed
  exact inStep_pure ⟨rfl, rfl⟩

end Context

namespace Compiler

variable {compiler : Compiler} {collection : String} {r : Request} {q : Query}

theorem target_window (collection : String) (r : Request) : (target collection r).window = none := by
  unfold target
  dsimp only
  split <;> rfl

/-- A statement is given the window that its request asks for. -/
theorem window_of_compile (h : compiler.compile collection r = .ok q) :
    q.window.getD {} = compiler.options.window r := by
  obtain ⟨applied, happlied, rfl⟩ := compile_eq_ok h
  obtain ⟨relations, k, -, hgives⟩ := apply_eq_ok happlied
  obtain ⟨info, scope, grouped, items, k₁, k₂, -, -, hgrouped, hquery⟩ :=
    Context.grouped_of_apply hgives
  rw [hquery, Context.foldl_addItem]
  exact (congrArg (Option.getD · {}) hgrouped.window).trans
    (Query.window_narrow (target_window collection r) _)

/-- The pages of a request are one statement but for their windows. -/
theorem compile_page (h : compiler.compile collection r = .ok q) (page : Option Nat) :
    ∃ q', compiler.compile collection { r with page } = .ok q' ∧
      q' = { q with window := q'.window } := by
  obtain ⟨applied, happlied, rfl⟩ := compile_eq_ok h
  obtain ⟨relations, k, hrelations, hgives⟩ := apply_eq_ok happlied
  have hstep : InStep True _ (Context.apply { compiler with relations } collection
      (target collection r) r false) (Context.apply { compiler with relations } collection
      (target collection r) { r with page } false) :=
    Context.inStep_apply_windowed rfl rfl rfl rfl rfl rfl
  obtain ⟨applied', hgives', hsame, -⟩ := hstep.exists_gives hgives
  refine ⟨applied'.query, compile_of_gives hrelations hgives', ?_⟩
  rw [hsame]

end Compiler

/-! ## Pages that make up a result -/

/-- The windows of pages of so many rows, the first of which is page one; page zero is the first
too. -/
structure Tiles (l : Nat) (pages : Nat → Window) : Prop where
  /-- later pages have offsets that are no less, and no offset is beyond an integer of 64 bits -/
  monotone : ∀ p p', p ≤ p' → ∃ m m', (pages p).offset = some m ∧ (pages p').offset = some m' ∧
    m ≤ m' ∧ m' < Decimal.nat64Limit ∧ (pages p).cut.skipped ≤ (pages p').cut.skipped
  /-- the page behind another one begins where that one ends -/
  adjacent : ∀ p, l * max p 1 < Decimal.int64Limit → (pages p).cut.most = some l ∧
    (pages (max p 1 + 1)).cut = ⟨(pages p).cut.skipped + l, some l⟩
  /-- the first pages one after another are the rows that a result begins with -/
  all : ∀ {α : Type} (rows : List α) (n : Nat), l * n < Decimal.int64Limit →
    (List.range n).flatMap (fun i => (pages (i + 1)).cut.rows rows) = rows.take (l * n)

section Tiles

variable {l : Nat} {pages : Nat → Window}

/-- An offset within the integers of 64 bits is written as far as it can be. -/
theorem writtenCount_min (n : Nat) :
    writtenCount (min n (Decimal.nat64Limit - 1)) = writtenCount n := by
  have hless : Decimal.int64Limit ≤ Decimal.nat64Limit := by decide
  unfold writtenCount
  omega

theorem writtenCount_of_lt {n : Nat} (h : n < Decimal.int64Limit) : writtenCount n = n :=
  Nat.min_eq_left (Nat.le_sub_one_of_lt h)

theorem writtenCount_mono {m n : Nat} (h : m ≤ n) : writtenCount m ≤ writtenCount n := by
  unfold writtenCount
  omega

theorem tiles_of_offsets (hl : 0 < l) (hlimit : ∀ p, (pages p).limit = some l)
    (hoffset : ∀ p, (pages p).offset =
      some (min (l * (max p 1 - 1)) (Decimal.nat64Limit - 1))) : Tiles l pages := by
  have hskipped (p : Nat) : (pages p).cut.skipped = writtenCount (l * (max p 1 - 1)) := by
    rw [Window.cut, hoffset, Option.getD_some, writtenCount_min]
  have hcut (p : Nat) (hless : l < Decimal.int64Limit)
      (h : l * (max p 1 - 1) < Decimal.int64Limit) :
      (pages p).cut = ⟨l * (max p 1 - 1), some l⟩ := by
    rw [Window.cut, hlimit, hoffset, Option.getD_some, writtenCount_min, writtenCount_of_lt h,
      Option.map_some, writtenCount_of_lt hless]
  refine ⟨fun p p' h => ⟨_, _, hoffset p, hoffset p', ?_, ?_, ?_⟩, fun p h => ?_, ?_⟩
  · have hbefore : l * (max p 1 - 1) ≤ l * (max p' 1 - 1) := Nat.mul_le_mul_left l (by omega)
    omega
  · have hpos : 0 < Decimal.nat64Limit := by decide
    omega
  · rw [hskipped, hskipped]
    exact writtenCount_mono (Nat.mul_le_mul_left l (by omega))
  · have hone : l ≤ l * max p 1 := Nat.le_mul_of_pos_right l (by omega)
    have hend : l * (max p 1 - 1) + l = l * max p 1 := by
      rw [← Nat.mul_succ]
      congr 1
      omega
    have hnext : max (max p 1 + 1) 1 - 1 = max p 1 := by omega
    have hpage := hcut p (by omega) (by omega)
    have hbehind := hcut (max p 1 + 1) (by omega) (by rwa [hnext])
    rw [hnext, ← hend] at hbehind
    rw [hpage]
    exact ⟨rfl, hbehind⟩
  · intro α rows n
    induction n with
    | zero => exact fun _ => by simp
    | succ n ih =>
      intro h
      have hone : l ≤ l * (n + 1) := Nat.le_mul_of_pos_right l n.succ_pos
      have hend : l * (n + 1) = l * n + l := Nat.mul_succ l n
      have hfirst : max (n + 1) 1 - 1 = n := by omega
      have hpage := hcut (n + 1) (by omega) (by rw [hfirst]; omega)
      rw [hfirst] at hpage
      rw [List.range_succ, List.flatMap_append, ih (by omega), List.flatMap_singleton, hpage, hend,
        List.take_add]
      rfl

end Tiles

/-- The row window of a compiled request is within the bound of the options, and its offset is that
of the page, or the one asked for; every dialect writes the offset as far as it can.  The other pages
of the request are the same statement with other windows, and where there are rows on a page, they
are the whole result one after another. -/
theorem pages_of_compile {compiler : Compiler} {collection : String} {r : Request} {q : Query}
    (h : compiler.compile collection r = .ok q) :
    compiler.options.IsPaged r (q.window.getD {}) ∧
    (∀ m, (q.window.getD {}).offset = some m → ∀ d, ∃ before behind, q.tokens d =
      before ++ [.keyword .offset, .space, .int (min m (Decimal.int64Limit - 1) : Nat)] ++
        behind) ∧
    ∃ pages : Nat → Query,
      (∀ p, compiler.compile collection { r with page := some p } = .ok (pages p) ∧
        pages p = { q with window := (pages p).window }) ∧
      ∀ l, (q.window.getD {}).limit = some l → 0 < l → Tiles l fun p => (pages p).window.getD {} := by
  have hpaged (r : Request) := Options.isPaged_window compiler.options r
  have hwindow {r : Request} {q : Query} (h : compiler.compile collection r = .ok q) :=
    Compiler.window_of_compile h
  choose pages hpages hsame using fun p => Compiler.compile_page h (some p)
  refine ⟨hwindow h ▸ hpaged r, fun m hm => Query.writes_offset hm, pages,
    fun p => ⟨hpages p, hsame p⟩, fun l hlimit hl => ?_⟩
  have hlimits (p : Nat) : ((pages p).window.getD {}).limit = some l := by
    rw [hwindow (hpages p), Options.window_limit]
    rw [hwindow h, Options.window_limit] at hlimit
    exact hlimit
  refine tiles_of_offsets hl hlimits fun p => ?_
  have hpage := hpaged { r with page := some p }
  rw [← hwindow (hpages p)] at hpage
  exact hpage.paged l p (hlimits p) hl rfl

/-- The third page of two rows, which are the fifth and the sixth, and the pages before it. -/
theorem pages_of_compile_blog :
    ∃ q, ∃ pages : Nat → Query,
      (Compiler.blog .postgres).compile "articles" { limit := some 2, page := some 3 } = .ok q ∧
      q.window = some { limit := some 2, offset := some 4 } ∧
      (∀ p, (Compiler.blog .postgres).compile "articles" { limit := some 2, page := some p } =
        .ok (pages p)) ∧
      (List.range 3).flatMap (fun i => ((pages (i + 1)).window.getD {}).cut.rows
        [1, 2, 3, 4, 5, 6, 7]) = [1, 2, 3, 4, 5, 6] := by
  obtain ⟨q, hq, hwindow⟩ : ∃ q,
      (Compiler.blog .postgres).compile "articles" { limit := some 2, page := some 3 } = .ok q ∧
      q.window = some { limit := some 2, offset := some 4 } :=
    Compiler.exists_compile_with (by decide +kernel)
  obtain ⟨-, -, pages, hpages, htiles⟩ := pages_of_compile hq
  have htwo := htiles 2 (by rw [hwindow]; rfl) (by decide)
  exact ⟨q, pages, hq, hwindow, fun p => (hpages p).1,
    htwo.all [1, 2, 3, 4, 5, 6, 7] 3 (by decide)⟩

end JsonSql
