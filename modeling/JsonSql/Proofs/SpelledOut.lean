import JsonSql.Proofs.Copies
import JsonSql.Proofs.Exchanges
import JsonSql.Proofs.RowsBelow

set_option autoImplicit false

/-!
# Bare filters on related rows

A filter on a key that links to several rows asks for some of them that meet it, as if it stood under
`_some`.  At the start of a filter both spellings compile to the same subquery.  Below a joined key
the bare one joins the related rows instead, with a row of nulls where there are none, and all that
is asked along the same link is asked of the same row.  Where this makes no difference, a filter can
be spelled out (`Filter.SpellsOut`) and selects the same rows (`selected_of_spelledOut`).
-/

namespace JsonSql

open JsonSql.Sql

/-! ## Filters that are asked of related rows -/

mutual
/-- At its top, a filter asks of several rows by quantifiers alone, and of nothing else by these. -/
def Filter.quantifiesSeveral (s : Schema) (collection : String) : Filter → Bool
  | ⟨clauses⟩ => clausesQuantifySeveral s collection clauses

/-- At their top, clauses ask of several rows by quantifiers alone. -/
def clausesQuantifySeveral (s : Schema) (collection : String) : List Clause → Bool
  | [] => true
  | clause :: rest =>
    clause.quantifiesSeveral s collection && clausesQuantifySeveral s collection rest

/-- At its top, a clause asks of several rows by quantifiers alone. -/
def Clause.quantifiesSeveral (s : Schema) (collection : String) : Clause → Bool
  | .all filters | .any filters => filtersQuantifySeveral s collection filters
  | .field key condition =>
    let several := (link s.relations collection key).isToMany
    match condition with
    | .compare _ => true
    | .nested _ => !several
    | .quantified _ _ => several && Text.trim key = key

/-- At their top, filters ask of several rows by quantifiers alone. -/
def filtersQuantifySeveral (s : Schema) (collection : String) : List Filter → Bool
  | [] => true
  | f :: rest => f.quantifiesSeveral s collection && filtersQuantifySeveral s collection rest
end

section

variable {E : Engine} {s : Schema} {db : Database E} {d : Dialect} {collection related : String}
  {path : List String} {rows : Placed E}

/-- Below a path, the rows there are asked for those that a key links to. -/
theorem Schema.asked?_of_ne_nil (hne : path ≠ []) (key : String) :
    s.asked? collection path key = (s.reached? collection path).map fun owner =>
      (path, owner, link s.relations owner (Text.trim key)) := by
  rw [Schema.asked?, if_neg (by simp [hne])]
  dsimp only
  rw [if_neg hne]

/-- At the start, the rows of the collection are asked for those that a key links to. -/
theorem Schema.asked?_nil {key : String} (hseveral : (link s.relations collection key).isToMany) :
    s.asked? collection [] key = some ([], collection, link s.relations collection key) :=
  if_pos (by simp [hseveral])

/-- The rows at the paths that continue a path. -/
def Placed.below (rows : Placed E) (path : List String) : Placed E := fun more => rows (path ++ more)

theorem Schema.reached?_append (hreached : s.reached? collection path = some related)
    (more : List String) : s.reached? collection (path ++ more) = s.reached? related more := by
  rw [Schema.reached?, List.foldlM_append]
  exact congrArg (· >>= fun owner => s.reached? owner more) hreached

/-- Rows that fit together do so below a path. -/
theorem Placed.Fits.below (h : rows.Fits s db collection)
    (hreached : s.reached? collection path = some related) : (rows.below path).Fits s db related := by
  intro before segment owner target howner htarget
  rw [Placed.below, Placed.below, ← List.append_assoc]
  exact h (path ++ before) segment owner target
    ((Schema.reached?_append hreached before).trans howner) htarget

mutual
/-- Below a path, a filter asks of rows what it asks of the rows below the path, if at its top it
asks of several rows by quantifiers alone. -/
theorem Filter.sense?_below (hreached : s.reached? collection path = some related) (hne : path ≠ [])
    (f : Filter) (parents : List String)
    (hf : parents = [] → f.quantifiesSeveral s related = true) :
    f.sense? s db d collection (path ++ parents) rows =
      f.sense? s db d related parents (rows.below path) := by
  obtain ⟨clauses⟩ := f
  rw [Filter.sense?, Filter.sense?, clauseSenses_below hreached hne clauses parents hf]

theorem clauseSenses_below (hreached : s.reached? collection path = some related) (hne : path ≠ [])
    (clauses : List Clause) (parents : List String)
    (hf : parents = [] → clausesQuantifySeveral s related clauses = true) :
    clauseSenses s db d collection (path ++ parents) rows clauses =
      clauseSenses s db d related parents (rows.below path) clauses := by
  cases clauses with
  | nil => rw [clauseSenses, clauseSenses]
  | cons clause rest =>
    simp only [clausesQuantifySeveral, Bool.and_eq_true] at hf
    rw [clauseSenses, clauseSenses,
      Clause.sense?_below hreached hne clause parents fun hnil => (hf hnil).1,
      clauseSenses_below hreached hne rest parents fun hnil => (hf hnil).2]

theorem Clause.sense?_below (hreached : s.reached? collection path = some related) (hne : path ≠ [])
    (clause : Clause) (parents : List String)
    (hf : parents = [] → clause.quantifiesSeveral s related = true) :
    clause.sense? s db d collection (path ++ parents) rows =
      clause.sense? s db d related parents (rows.below path) := by
  cases clause with
  | all filters =>
    rw [Clause.sense?, Clause.sense?, filterSenses_below hreached hne filters parents hf]
  | any filters =>
    rw [Clause.sense?, Clause.sense?, filterSenses_below hreached hne filters parents hf]
  | field key condition =>
    have hstart : ¬((path ++ parents).isEmpty && (link s.relations collection key).isToMany) =
        true := by
      simp [hne]
    rw [Clause.sense?, Clause.sense?]
    cases condition with
    | compare comparisons =>
      rw [FieldCondition.sense?, FieldCondition.sense?, Schema.reached?_append hreached]
      rfl
    | nested f =>
      have hnone : ¬(parents.isEmpty && (link s.relations related key).isToMany) = true := by
        by_cases hparents : parents = []
        · have hone := hf hparents
          simp only [Clause.quantifiesSeveral, Bool.not_eq_true'] at hone
          simp [hone]
        · simp [hparents]
      rw [FieldCondition.sense?, FieldCondition.sense?, if_neg hstart, if_neg hnone,
        List.append_assoc]
      exact Filter.sense?_below hreached hne f (parents ++ [Text.trim key]) (by simp)
    | quantified quantifier f =>
      rw [FieldCondition.sense?, FieldCondition.sense?, Schema.asked?_of_ne_nil (by simp [hne]),
        Schema.reached?_append hreached]
      by_cases hparents : parents = []
      · have hseveral := hf hparents
        simp only [Clause.quantifiesSeveral, Bool.and_eq_true, decide_eq_true_eq] at hseveral
        rw [hparents, Schema.asked?_nil hseveral.1, hseveral.2]
        rfl
      · rw [Schema.asked?_of_ne_nil hparents, Option.map_map, Option.map_map]
        rfl

theorem filterSenses_below (hreached : s.reached? collection path = some related) (hne : path ≠ [])
    (filters : List Filter) (parents : List String)
    (hf : parents = [] → filtersQuantifySeveral s related filters = true) :
    filterSenses s db d collection (path ++ parents) rows filters =
      filterSenses s db d related parents (rows.below path) filters := by
  cases filters with
  | nil => rw [filterSenses, filterSenses]
  | cons f rest =>
    simp only [filtersQuantifySeveral, Bool.and_eq_true] at hf
    rw [filterSenses, filterSenses,
      Filter.sense?_below hreached hne f parents fun hnil => (hf hnil).1,
      filterSenses_below hreached hne rest parents fun hnil => (hf hnil).2]
end

/-- A link to several rows joins those that refer to some row, and by the key of the one that is
joined. -/
theorem Link.joins_eq_yes_iff {owner : String} {row other : Row E} {along : Link} {r : Relation}
    (hseveral : along.isToMany = true) (hr : along.relation? = some r) :
    along.joins s owner row other = .yes ↔ RefersToSome owner other along ∧
      E.same (spelledKey along.isPolymorphic (row (s.primaryOf owner))) (other r.field) = .yes := by
  cases along with
  | none | manyToOne | manyToAny => cases hseveral
  | oneToMany r' =>
    obtain rfl : r' = r := Option.some.inj hr
    exact ⟨fun hsame => ⟨.plain (E.isSome_of_same hsame), hsame⟩, And.right⟩
  | oneToAny r' =>
    obtain rfl : r' = r := Option.some.inj hr
    rw [Link.joins, Relation.pointsTo]
    cases hcolumn : r'.info.discriminator with
    | none =>
      refine ⟨fun h => (by cases h), ?_⟩
      rintro ⟨_ | ⟨hfound, -, -⟩, -⟩
      cases hcolumn.symm.trans hfound
    | some column =>
      dsimp only
      rw [Truth.and_eq_yes, E.same_symm (other r'.field)]
      constructor
      · rintro ⟨hcollection, hsame⟩
        exact ⟨.polymorphic hcolumn (E.isSome_of_same hsame) hcollection, hsame⟩
      · rintro ⟨_ | ⟨hfound, -, hcollection⟩, hsame⟩
        obtain rfl := Option.some.inj (hfound.symm.trans hcolumn)
        exact ⟨hcollection, hsame⟩

/-- Some of the related rows are as asked if and only if a link to several rows finds one that is. -/
theorem sense_some_eq_yes {owner : String} {row : Row E} {along : Link}
    {asked : String → Row E → Prop} (hseveral : along.isToMany = true)
    (htarget : along.target? = some related) :
    Quantifier.some.sense s db owner row along asked = .yes ↔
      ∃ other ∈ along.found s db owner row related, asked related other := by
  obtain ⟨r, hr, rfl⟩ : ∃ r, along.relation? = some r ∧ r.collection = related := by
    cases along with
    | none | manyToOne | manyToAny => cases hseveral
    | oneToMany r | oneToAny r => exact ⟨r, rfl, Option.some.inj htarget⟩
  have hsense : Quantifier.some.sense s db owner row along asked =
      E.isAmong (spelledKey along.isPolymorphic (row (s.primaryOf owner)))
        (along.keysOf db owner asked) := rfl
  rw [hsense, E.isAmong_eq_yes]
  simp only [Link.mem_keysOf hr, Link.found, List.mem_filter, decide_eq_true_eq,
    Link.joins_eq_yes_iff hseveral hr]
  constructor
  · rintro ⟨v, ⟨other, hother, hrefers, hasked, rfl⟩, hsame⟩
    exact ⟨other, ⟨hother, hrefers, hsame⟩, hasked⟩
  · rintro ⟨other, ⟨hother, hrefers, hsame⟩, hasked⟩
    exact ⟨other r.field, ⟨other, hother, hrefers, hasked, rfl⟩, hsame⟩

/-! ## Other rows below a path -/

/-- Rows with others at a path and at all that continue it. -/
def Placed.graft (rows : Placed E) (path : List String) (others : Placed E) : Placed E := fun more =>
  if path <+: more then others (more.drop path.length) else rows more

theorem Placed.graft_append (others : Placed E) (more : List String) :
    rows.graft path others (path ++ more) = others more := by
  rw [graft, if_pos (List.prefix_append path more), List.drop_left]

theorem Placed.graft_of_not_prefix (others : Placed E) {more : List String}
    (h : ¬path <+: more) : rows.graft path others more = rows more :=
  if_neg h

/-- Rows below a path fit together with those before it if the first of them stands beside the row
that the path continues. -/
theorem Placed.Fits.graft {others : Placed E} {owner key : String}
    (h : rows.Fits s db collection) (hothers : others.Fits s db related)
    (howner : s.reached? collection path = some owner)
    (htarget : (link s.relations owner key).target? = some related)
    (hbeside : others [] ∈ (link s.relations owner key).beside s db owner (rows path) related) :
    (rows.graft (path ++ [key]) others).Fits s db collection := by
  have hreached : s.reached? collection (path ++ [key]) = some related := by
    rw [Schema.reached?_append howner, Schema.reached?, List.foldlM_cons, htarget]
    rfl
  intro before segment owner' target howner' htarget'
  by_cases hbefore : path ++ [key] <+: before
  · obtain ⟨more, rfl⟩ := hbefore
    rw [List.append_assoc (path ++ [key]), Placed.graft_append, Placed.graft_append]
    exact hothers more segment owner' target
      ((Schema.reached?_append hreached more).symm.trans howner') htarget'
  · rw [Placed.graft_of_not_prefix others hbefore]
    by_cases hsame : path ++ [key] = before ++ [segment]
    · obtain ⟨rfl, hkey⟩ := List.append_inj' hsame rfl
      obtain rfl := List.singleton_inj.mp hkey
      obtain rfl := Option.some.inj (howner.symm.trans howner')
      obtain rfl := Option.some.inj (htarget.symm.trans htarget')
      have hhere : rows.graft (path ++ [key]) others (path ++ [key] ++ []) = others [] :=
        Placed.graft_append others []
      rw [List.append_nil] at hhere
      rw [hhere]
      exact hbeside
    · have hnone : ¬path ++ [key] <+: before ++ [segment] := by
        rw [List.prefix_concat_iff]
        exact fun h => h.elim hsame hbefore
      rw [Placed.graft_of_not_prefix others hnone]
      exact h before segment owner' target howner' htarget'

/-- There are rows at all paths that fit together, from any row on. -/
theorem Placed.exists_fits (s : Schema) (db : Database E) (collection : String) (row : Row E) :
    ∃ placed : Placed E, placed [] = row ∧ placed.Fits s db collection := by
  have hstart : Scope.Fits s db collection { query := {} } [(collection, row)] :=
    fun _ _ _ _ hfound => by cases hfound
  obtain ⟨placed, hroot, hplaced, -⟩ :=
    hstart.exists_placed (Hops.Led.empty (c := s.context {} Alias.sequential) 0)
  exact ⟨placed, hroot.trans (rowOf_cons_self collection row []), hplaced⟩

end

/-! ## Filters that select the same rows -/

variable {E : Engine} {s : Schema} {db : Database E} {options : Options} {names : Nat → String}
  {collection : String} {further : List String → Prop} {e : Exchange} {f g : Filter}

/-- A filter with conditions exchanged that have the same truth value selects the same rows. -/
theorem Filter.Exchanges.selects_iff
    (h : f.Exchanges (s.context options names) collection further e [] g)
    (hsame : ∀ rows : Placed E, e.old? s db options.dialect collection rows =
      e.new? s db options.dialect collection rows) (row : Row E) :
    f.Selects s db options.dialect collection row ↔
      g.Selects s db options.dialect collection row := by
  refine exists_congr fun rows => and_congr_right fun _ => and_congr_right fun _ => ?_
  rw [h.lift Truth.isKept_eq (hsame rows)]

theorem Truth.Entails.getD {t? u? : Option Truth} (h : Entails t? u?)
    (hyes : t?.getD .yes = .yes) : u?.getD .yes = .yes := by
  obtain ⟨hsome, hentails⟩ := h
  cases t? with
  | none =>
    cases u? with
    | none => rfl
    | some u => cases hsome
  | some t => rw [hentails (congrArg some hyes), Option.getD_some]

/-- A filter with conditions exchanged selects all rows that it selected, if the new one is entailed
by the old one on rows that fit together. -/
theorem Filter.Exchanges.selects
    (h : f.Exchanges (s.context options names) collection further e [] g)
    (hentails : ∀ rows : Placed E, rows.Fits s db collection →
      Truth.Entails (e.old? s db options.dialect collection rows)
        (e.new? s db options.dialect collection rows)) {row : Row E}
    (hselects : f.Selects s db options.dialect collection row) :
    g.Selects s db options.dialect collection row := by
  obtain ⟨rows, hroot, hfits, hyes⟩ := hselects
  exact ⟨rows, hroot, hfits, (h.lift Truth.isKept_entails (hentails rows hfits)).getD hyes⟩

/-- A filter with conditions exchanged selects no more rows than it selected, if the new one moves
to other rows that fit together. -/
theorem Filter.Exchanges.selects_of_moves
    (h : f.Exchanges (s.context options names) collection further e [] g)
    (hmoves : ∀ rows : Placed E, rows.Fits s db collection → ∃ rows' : Placed E,
      rows' [] = rows [] ∧ rows'.Fits s db collection ∧
        e.Moves s db options names collection further rows rows') {row : Row E}
    (hselects : g.Selects s db options.dialect collection row) :
    f.Selects s db options.dialect collection row := by
  obtain ⟨rows, hroot, hfits, hyes⟩ := hselects
  obtain ⟨rows', hroot', hfits', hmoved⟩ := hmoves rows hfits
  have hboth := h.lift Truth.isKept_isSome hmoved.isSome
  cases hg : g.sense? s db options.dialect collection [] rows with
  | none =>
    have hnone : f.sense? s db options.dialect collection [] rows = none :=
      Option.isNone_iff_eq_none.mp (by rw [← Option.not_isSome, hboth, hg]; rfl)
    exact ⟨rows, hroot, hfits, by rw [hnone]; rfl⟩
  | some t =>
    rw [hg, Option.getD_some] at hyes
    rw [hyes] at hg
    rcases h.eq_yes_or hmoved hg with hold | hold
    · exact ⟨rows, hroot, hfits, by rw [hold]; rfl⟩
    · exact ⟨rows', hroot'.trans hroot, hfits', by rw [hold]; rfl⟩

/-! ## Spelling out -/

/-- A bare filter on related rows is to be put under `_some`. -/
def Exchange.spellOut (parents : List String) (key : String) (inner : Filter) : Exchange where
  parents := parents
  key := key
  old := .nested inner
  new := .quantified .some inner

/-- A key below a joined path links to several rows, and the row of nulls that stands there if no
rows are found does not meet the filter that is asked of them. -/
structure Filter.IsAskedBelow (s : Schema) (db : Database E) (d : Dialect) (collection : String)
    (path : List String) (key owner related : String) (inner : Filter) : Prop where
  joined : path ≠ []
  reached : s.reached? collection path = some owner
  several : (link s.relations owner (Text.trim key)).isToMany = true
  target : (link s.relations owner (Text.trim key)).target? = some related
  quantifies : inner.quantifiesSeveral s related = true
  nulls : ¬inner.Selects s db d related (nullRow E)

namespace Filter.IsAskedBelow

variable {path : List String} {key owner related : String} {inner : Filter} {rows : Placed E}

theorem reached_related
    (h : inner.IsAskedBelow s db options.dialect collection path key owner related) :
    s.reached? collection (path ++ [Text.trim key]) = some related := by
  rw [Schema.reached?_append h.reached, Schema.reached?, List.foldlM_cons, h.target]
  rfl

/-- The bare filter is asked of the row that is joined. -/
theorem old?_eq (h : inner.IsAskedBelow s db options.dialect collection path key owner related)
    (rows : Placed E) :
    (Exchange.spellOut path key inner).old? s db options.dialect collection rows =
      inner.sense? s db options.dialect related [] (rows.below (path ++ [Text.trim key])) := by
  have hbelow : inner.sense? s db options.dialect collection (path ++ [Text.trim key] ++ []) rows =
      inner.sense? s db options.dialect related [] (rows.below (path ++ [Text.trim key])) :=
    Filter.sense?_below h.reached_related (List.concat_ne_nil _ _) inner [] fun _ => h.quantifies
  rw [List.append_nil] at hbelow
  rw [← hbelow, Exchange.old?, Exchange.spellOut]
  dsimp only
  rw [FieldCondition.sense?, if_neg (by simp [h.joined])]

/-- The spelled out filter is asked of the rows that the link finds. -/
theorem new?_eq (h : inner.IsAskedBelow s db options.dialect collection path key owner related)
    (rows : Placed E) :
    (Exchange.spellOut path key inner).new? s db options.dialect collection rows =
      some (Quantifier.some.sense s db owner (rows path) (link s.relations owner (Text.trim key))
        fun related other => inner.Selects s db options.dialect related other) := by
  rw [Exchange.new?, Exchange.spellOut]
  dsimp only
  rw [FieldCondition.sense?, Schema.asked?_of_ne_nil h.joined, h.reached]
  rfl

theorem new?_eq_yes (h : inner.IsAskedBelow s db options.dialect collection path key owner related)
    (rows : Placed E) :
    (Exchange.spellOut path key inner).new? s db options.dialect collection rows = some .yes ↔
      ∃ other ∈ (link s.relations owner (Text.trim key)).found s db owner (rows path) related,
        inner.Selects s db options.dialect related other := by
  rw [h.new?_eq, Option.some.injEq, sense_some_eq_yes h.several h.target]

/-- The filter restricts its rows, as the row of nulls does not meet it. -/
theorem isSome_eq (h : inner.IsAskedBelow s db options.dialect collection path key owner related)
    (rows : Placed E) :
    ((Exchange.spellOut path key inner).old? s db options.dialect collection rows).isSome =
      ((Exchange.spellOut path key inner).new? s db options.dialect collection rows).isSome := by
  obtain ⟨placed, hroot, hfits⟩ := Placed.exists_fits s db related (nullRow E)
  have hsome : (inner.sense? s db options.dialect related [] placed).isSome := by
    by_contra hnone
    refine h.nulls ⟨placed, hroot, hfits, ?_⟩
    rw [Option.not_isSome_iff_eq_none.mp hnone]
    rfl
  rw [h.old?_eq, h.new?_eq, inner.isSome_sense? [], hsome]
  rfl

/-- A joined row that meets the filter is one that the link finds. -/
theorem entails (h : inner.IsAskedBelow s db options.dialect collection path key owner related)
    (hfits : rows.Fits s db collection) :
    Truth.Entails ((Exchange.spellOut path key inner).old? s db options.dialect collection rows)
      ((Exchange.spellOut path key inner).new? s db options.dialect collection rows) := by
  refine ⟨h.isSome_eq rows, fun hyes => ?_⟩
  rw [h.old?_eq] at hyes
  have hselects : inner.Selects s db options.dialect related (rows (path ++ [Text.trim key])) := by
    refine ⟨rows.below _, ?_, hfits.below h.reached_related, by rw [hyes]; rfl⟩
    rw [Placed.below, List.append_nil]
  have hbeside := hfits path (Text.trim key) owner related h.reached h.target
  refine (h.new?_eq_yes rows).mpr ⟨_, ?_, hselects⟩
  rw [Link.beside] at hbeside
  cases hfound : (link s.relations owner (Text.trim key)).found s db owner (rows path) related with
  | nil =>
    rw [hfound] at hbeside
    rw [List.mem_singleton.mp hbeside] at hselects
    exact absurd hselects h.nulls
  | cons first rest =>
    rw [hfound] at hbeside
    exact hbeside

/-- A row that the link finds and that meets the filter may be joined, if nothing that has to hold
together with the filter goes along the link. -/
theorem moves (h : inner.IsAskedBelow s db options.dialect collection path key owner related)
    (hfits : rows.Fits s db collection) : ∃ rows' : Placed E, rows' [] = rows [] ∧
      rows'.Fits s db collection ∧ (Exchange.spellOut path key inner).Moves s db options names
        collection (fun other => ¬path ++ [Text.trim key] <+: other.dropLast) rows rows' := by
  by_cases hyes : (Exchange.spellOut path key inner).new? s db options.dialect collection rows =
      some .yes
  · obtain ⟨other, hother, others, rfl, hothers, hmeets⟩ := (h.new?_eq_yes rows).mp hyes
    have hbeside : others [] ∈
        (link s.relations owner (Text.trim key)).beside s db owner (rows path) related := by
      rw [Link.beside]
      cases hfound : (link s.relations owner (Text.trim key)).found s db owner (rows path) related with
      | nil =>
        rw [hfound] at hother
        cases hother
      | cons first rest => rwa [hfound] at hother
    -- neither the row of the collection nor one below a single key stands below the path
    have hshort (other : List String) (hother : other.length ≤ 1) :
        ¬path ++ [Text.trim key] <+: other := by
      intro hprefix
      have hlength := hprefix.length_le
      have hpositive := List.length_pos_iff.mpr h.joined
      rw [List.length_append, List.length_singleton] at hlength
      omega
    have hbelow : (rows.graft (path ++ [Text.trim key]) others).below (path ++ [Text.trim key]) =
        others := funext (Placed.graft_append others)
    refine ⟨rows.graft (path ++ [Text.trim key]) others,
      Placed.graft_of_not_prefix others (hshort [] (by simp)),
      hfits.graft hothers h.reached h.target hbeside, fun f parents hpaths => ?_,
      h.isSome_eq rows, fun _ => .inr ?_⟩
    · have hsame (other : List String)
          (hother : other ∈ (s.context options names).filterPaths collection parents f) :
          rows other.dropLast = rows.graft (path ++ [Text.trim key]) others other.dropLast :=
        (Placed.graft_of_not_prefix others (hpaths other hother)).symm
      exact Filter.sense?_congr f parents
        (Placed.graft_of_not_prefix others (hshort [] (by simp))).symm
        (Placed.graft_of_not_prefix others (hshort [""] (by simp))).symm hsame
    · rw [h.old?_eq, hbelow]
      have hsome := h.isSome_eq rows
      rw [hyes, Option.isSome_some, h.old?_eq, inner.isSome_sense? [], Option.isSome_iff_exists] at hsome
      obtain ⟨t, ht⟩ := hsome
      rw [ht, Option.getD_some] at hmeets
      rw [ht, hmeets]
  · exact ⟨rows, rfl, hfits, fun _ _ _ => rfl, h.isSome_eq rows, fun hnew => absurd hnew hyes⟩

end Filter.IsAskedBelow

/-- In the second filter, a bare filter on related rows stands under `_some`: one at the start of a
filter, whatever it is and whatever else is asked; or one below a joined path, if the row of nulls
does not meet it and nothing that has to hold together with it goes along its link; or one of these
in a filter that is asked of related rows itself. -/
inductive Filter.SpellsOut (s : Schema) (options : Options) (names : Nat → String)
    (db : Database E) : String → Filter → Filter → Prop
  | start {collection key : String} {inner f g : Filter} :
      (link s.relations collection key).isToMany = true →
      f.Exchanges (s.context options names) collection (fun _ => True) (.spellOut [] key inner) [] g →
      SpellsOut s options names db collection f g
  | joined {collection key owner related : String} {path : List String} {inner f g : Filter} :
      inner.IsAskedBelow s db options.dialect collection path key owner related →
      f.Exchanges (s.context options names) collection
        (fun other => ¬path ++ [Text.trim key] <+: other.dropLast) (.spellOut path key inner) [] g →
      SpellsOut s options names db collection f g
  | within {collection key owner : String} {path place : List String} {along : Link} {r : Relation}
      {quantifier : Quantifier} {inner inner' f g : Filter} :
      s.asked? collection path key = some (place, owner, along) → along.relation? = some r →
      SpellsOut s options names db r.collection inner inner' →
      f.Exchanges (s.context options names) collection (fun _ => True)
        ⟨path, key, .quantified quantifier inner, .quantified quantifier inner'⟩ [] g →
      SpellsOut s options names db collection f g

/-- Questions about related rows have one answer if they ask for the same ones of the rows that the
link leads to. -/
theorem sense_congr {owner : String} {row : Row E} {along : Link} {r : Relation}
    {asked asked' : String → Row E → Prop} (hr : along.relation? = some r)
    (hasked : ∀ other, asked r.collection other ↔ asked' r.collection other)
    (quantifier : Quantifier) :
    quantifier.sense s db owner row along asked = quantifier.sense s db owner row along asked' := by
  have hkeys (v : E.Value) : v ∈ along.keysOf db owner asked ↔ v ∈ along.keysOf db owner asked' := by
    simp only [Link.mem_keysOf hr, hasked]
  rw [Quantifier.sense, Quantifier.sense, Engine.isAmong_congr hkeys]

/-- A filter that is spelled out selects the same rows. -/
theorem Filter.SpellsOut.selects_iff (h : f.SpellsOut s options names db collection g)
    (row : Row E) : f.Selects s db options.dialect collection row ↔
      g.Selects s db options.dialect collection row := by
  induction h generalizing row with
  | start hseveral hexchanges =>
    refine hexchanges.selects_iff (fun rows => ?_) row
    rw [Exchange.old?, Exchange.new?, Exchange.spellOut]
    dsimp only
    rw [FieldCondition.sense?, FieldCondition.sense?, if_pos (by simp [hseveral])]
  | joined hasked hexchanges =>
    exact ⟨hexchanges.selects fun _ hfits => hasked.entails hfits,
      hexchanges.selects_of_moves fun _ hfits => hasked.moves hfits⟩
  | within hasked hr _ hexchanges ih =>
    refine hexchanges.selects_iff (fun rows => ?_) row
    rw [Exchange.old?, Exchange.new?]
    dsimp only
    rw [FieldCondition.sense?, FieldCondition.sense?, hasked, Option.map_some, Option.map_some]
    exact congrArg some (sense_congr hr ih _)

/-- Filters selects the same rows however much of them is spelled out. -/
theorem Filter.selects_iff_of_spelledOut
    (h : Relation.EqvGen (Filter.SpellsOut s options names db collection) f g) (row : Row E) :
    f.Selects s db options.dialect collection row ↔
      g.Selects s db options.dialect collection row := by
  induction h with
  | rel _ _ hstep => exact hstep.selects_iff row
  | refl => rfl
  | symm _ _ _ ih => exact ih.symm
  | trans _ _ _ _ _ ih ih' => exact ih.trans ih'

/-- A filter that asks of one key, below others that are joined, is one with what it asks exchanged. -/
theorem Clause.Exchanges.under {c : Context} : ∀ {parents keys : List String},
    c.IsJoined collection parents (keys ++ [e.key]) → parents ++ keys.map Text.trim = e.parents →
      (Clause.under keys (.field e.key e.old)).Exchanges c collection further e parents
        (.under keys (.field e.key e.new))
  | parents, [], _, hparents => by
    rw [List.map_nil, List.append_nil] at hparents
    subst hparents
    exact .here
  | parents, key :: rest, hjoined, hparents => by
    refine .onward key (Context.startsExistential_of_isJoined hjoined) (.clause [] [] ?_ nofun)
    exact Clause.Exchanges.under (Context.isJoined_concat parents (rest ++ [e.key]) _)
      (by rw [← hparents, List.map_cons, List.append_assoc, List.singleton_append])

/-! ## Compiled requests -/

section

variable {names' : Nat → String} {r r' : Request} {q q' : Query} {applied applied' : Applied}
  {declared : Collection} {k k' : Nat}

/-- A compiled request selects the rows of its collection that meet its search and that its filter
selects. -/
theorem mem_selected_of_apply (hinjective : Function.Injective names)
    (hc : s.collection? collection = some declared) (havoids : s.AvoidsAliases names k)
    (hjoins : q.joins = []) (hcondition : q.condition = none) (hfilter : r.filter = some f)
    (h : ((s.context options names).apply collection q r false).Gives 0 applied k) (row : Row E) :
    row ∈ applied.query.selected db collection ↔ row ∈ db collection ∧
      meets db [(collection, row)] (s.sought? collection r) = true ∧
        f.unfolded.Selects s db options.dialect collection row := by
  obtain ⟨hops, asked, e?, m, n, hrecorded, hkeeps, hled, hn, -, hsome, -, hselects⟩ :=
    selects_of_apply hinjective hc havoids hjoins hcondition h
  obtain ⟨hall, htruth⟩ := hselects db
  have hmeets {tables : Tables E} {rows : Placed E} (hplaces : Places collection hops tables rows)
      (hrow : rowOf tables collection = row) :
      meets db tables applied.query.condition = true ↔
        meets db [(collection, row)] (s.sought? collection r) = true ∧
          (f.unfolded.sense? s db options.dialect collection [] rows).getD .yes = .yes := by
    have hplaces' : Places collection asked tables rows :=
      ⟨hplaces.root, fun path hop hne hpath hfound =>
        hplaces.hop path hop hne hpath (hkeeps path hop hfound)⟩
    have hsought : rowOf tables collection = rowOf [(collection, row)] collection :=
      hrow.trans (rowOf_cons_self collection row []).symm
    rw [meets_iff, meets_iff, htruth, truthOn_sought?_eq hsought,
      truthOn_condition?_sense hinjective [] isPath_nil f.unfolded (isUnfolded_unfolded f) hc
        (havoids.mono hn) hled hplaces' (hsome f hfilter)]
    generalize (s.sought? collection r).map (Expr.truthOn db [(collection, row)]) = t?
    generalize f.unfolded.sense? s db options.dialect collection [] rows = u?
    cases t? <;> cases u? <;> simp [Truth.all?]
  rw [Query.mem_selected]
  refine and_congr_right fun _ => ⟨?_, ?_⟩
  · rintro ⟨tables, htables, htrue⟩
    obtain ⟨hroot, hfits⟩ := hall.fits [] row tables htables
    obtain ⟨rows, hrow, hrows, hplaces⟩ := hfits.exists_placed hrecorded.led
    obtain ⟨hsought, hyes⟩ := (hmeets hplaces hroot).mp htrue
    exact ⟨hsought, rows, hrow.trans hroot, hrows, hyes⟩
  · rintro ⟨hsought, rows, rfl, hrows, hyes⟩
    obtain ⟨tables, htables, hplaces⟩ := hall.exists_tables hrows []
    exact ⟨tables, htables, (hmeets hplaces hplaces.root).mpr ⟨hsought, hyes⟩⟩

/-- A request for whole rows returns those that it selects. -/
theorem mem_output_of_apply (hinjective : Function.Injective names)
    (hc : s.collection? collection = some declared) (havoids : s.AvoidsAliases names k)
    (hgroup : r.group = []) (haggregate : r.aggregate = [])
    (hsource : applied.query.source = some ⟨collection, none⟩)
    (h : ((s.context options names).apply collection (Compiler.target collection r) r false).Gives 0
      applied k) (cells : List (Cell E)) :
    cells ∈ applied.query.output db [] ↔
      ∃ row ∈ applied.query.selected db collection, cells = [.row row] := by
  obtain ⟨hops, asked, e?, m, n, -, -, -, -, -, -, -, hselects⟩ := selects_of_apply hinjective hc
    havoids (Compiler.target_joins collection r) (Compiler.target_condition collection r) h
  obtain ⟨hitems, hgroups, -⟩ := whole_of_apply hgroup haggregate h
  exact mem_output_iff_selected (hselects db).1 hitems hsource hgroups

/-- A bare filter on related rows means some of them.  Two requests with the same search, whose
filters are the same but for what is spelled out, select the same rows of their collection, if no
alias is spelled like a collection; and return the same ones, if they ask for whole rows. -/
theorem selected_of_spelledOut {letters letters' : Alias.Letters} (r r' : Request)
    (hfilter : r.filter = some f) (hfilter' : r'.filter = some g) (hsearch : r'.search = r.search)
    (hspelled : Relation.EqvGen (Filter.SpellsOut s options names db collection) f.unfolded
      g.unfolded)
    (havoids : ∀ name ∈ (s.compiler options letters).issued collection r,
      s.collection? name = none)
    (havoids' : ∀ name ∈ (s.compiler options letters').issued collection r',
      s.collection? name = none)
    (h : (s.compiler options letters).compile collection r = .ok q)
    (h' : (s.compiler options letters').compile collection r' = .ok q') :
    q.selected db collection = q'.selected db collection ∧
      (r.group = [] → r.aggregate = [] → r'.group = [] → r'.aggregate = [] →
        ∀ cells, cells ∈ q.output db [] ↔ cells ∈ q'.output db []) := by
  have hsource := (isStatement_of_compile h).source
  have hsource' := (isStatement_of_compile h').source
  obtain ⟨applied, k, happly, hfresh, rfl⟩ := apply_of_compile havoids h
  obtain ⟨applied', k', happly', hfresh', rfl⟩ := apply_of_compile havoids' h'
  obtain ⟨info, hinfo⟩ := Context.collection_of_apply happly
  obtain ⟨declared, hc, -⟩ := Option.map_eq_some_iff.mp (Except.ok.inj hinfo)
  have hinjective (letters : Alias.Letters) :
      Function.Injective (s.compiler options letters).names := Alias.names_injective _ _ letters
  have hsought : s.sought? collection r' = s.sought? collection r := by
    rw [Schema.sought?, hsearch, Schema.sought?]
  have hmem (row : Row E) : row ∈ applied.query.selected db collection ↔
      row ∈ applied'.query.selected db collection := by
    rw [mem_selected_of_apply (hinjective letters) hc hfresh (Compiler.target_joins collection r)
        (Compiler.target_condition collection r) hfilter happly,
      mem_selected_of_apply (hinjective letters') hc hfresh' (Compiler.target_joins collection r')
        (Compiler.target_condition collection r') hfilter' happly', hsought,
      Filter.selects_iff_of_spelledOut hspelled]
  have hselected : applied.query.selected db collection = applied'.query.selected db collection := by
    refine List.filter_congr fun row hrow => ?_
    have hsame := hmem row
    rw [Query.selected, Query.selected, List.mem_filter, List.mem_filter, and_iff_right hrow,
      and_iff_right hrow] at hsame
    exact Bool.eq_iff_iff.mpr hsame
  refine ⟨hselected, fun hgroup haggregate hgroup' haggregate' cells => ?_⟩
  rw [mem_output_of_apply (hinjective letters) hc hfresh hgroup haggregate hsource happly,
    mem_output_of_apply (hinjective letters') hc hfresh' hgroup' haggregate' hsource' happly',
    hselected]

end

/-- The body is the text. -/
def Filter.bodyIs (text : String) : Filter :=
  .of (.field "body" (.compare [⟨.equal false false, some (.string text)⟩]))

/-- The body is null. -/
def Filter.bodyIsNull : Filter :=
  .of (.field "body" (.compare [⟨.null false, none⟩]))

/-- The request for the comments of which all this is asked about the comments on their article. -/
def Request.onItsArticle (conditions : List FieldCondition) : Request where
  filter := some (.of (.all (conditions.map fun condition =>
    .of (.under ["article"] (.field "comments" condition)))))
  limit := some (-1)

/-- A body that is null is not `x`. -/
theorem not_selects_bodyIs_nullRow :
    ¬(Filter.bodyIs "x").Selects Schema.blog Database.busy .postgres "comments" (nullRow _) := by
  rintro ⟨rows, hroot, -, hyes⟩
  have hvalue : segmentValue Schema.blog Database.busy .postgres "comments" (rows [])
      (Text.trim "body") = none := by
    have hsplit : splitFunction (Text.trim "body") = (none, "body") := by
      decide +kernel
    rw [segmentValue, hsplit, hroot]
    rfl
  rw [Filter.bodyIs, Filter.of, Filter.sense?, clauseSenses, clauseSenses, Clause.sense?,
    FieldCondition.sense?, show Schema.blog.reached? "comments" [] = some "comments" from rfl,
    Option.bind_some, hvalue] at hyes
  exact absurd hyes (by decide +kernel)

theorem selected_of_spelledOut_blog :
    ∃ q q', (Schema.blog.compiler {} fun _ => 0).compile "comments"
        (.onItsArticle [.nested (.bodyIs "x")]) = .ok q ∧
      (Schema.blog.compiler {} fun _ => 0).compile "comments"
        (.onItsArticle [.quantified .some (.bodyIs "x")]) = .ok q' ∧
      q.selected Database.busy "comments" = q'.selected Database.busy "comments" ∧
      ∀ cells, cells ∈ q.output Database.busy [] ↔ cells ∈ q'.output Database.busy [] := by
  obtain ⟨q, hq⟩ : ∃ q, (Schema.blog.compiler {} fun _ => 0).compile "comments"
      (.onItsArticle [.nested (.bodyIs "x")]) = .ok q :=
    Compiler.exists_compile (by decide +kernel)
  obtain ⟨q', hq'⟩ : ∃ q, (Schema.blog.compiler {} fun _ => 0).compile "comments"
      (.onItsArticle [.quantified .some (.bodyIs "x")]) = .ok q :=
    Compiler.exists_compile (by decide +kernel)
  have htrim : Text.trim "article" = "article" ∧ Text.trim "comments" = "comments" := by
    decide +kernel
  have hbackward : link Schema.blog.relations "articles" "comments" = .oneToMany
      { collection := "comments", field := "article", related := some "articles"
        info := { oneField := some "comments" } } := by
    decide +kernel
  have hasked : (Filter.bodyIs "x").IsAskedBelow Schema.blog Database.busy .postgres "comments"
      ["article"] "comments" "articles" "comments" := {
    joined := by decide
    reached := by decide +kernel
    several := by rw [htrim.2, hbackward]; rfl
    target := by rw [htrim.2, hbackward]; rfl
    quantifies := by decide +kernel
    nulls := not_selects_bodyIs_nullRow }
  have hjoined : (Schema.blog.context {} Alias.sequential).IsJoined "comments" []
      (["article"] ++ ["comments"]) :=
    fun _ => ⟨"article", rfl, by decide +kernel⟩
  have hspelled : Relation.EqvGen (Filter.SpellsOut Schema.blog {} Alias.sequential Database.busy
      "comments")
      (.of (.all [.of (.under ["article"] (.field "comments" (.nested (.bodyIs "x"))))]))
      (.of (.all [.of (.under ["article"] (.field "comments" (.quantified .some (.bodyIs "x"))))])) := by
    refine .rel _ _ (.joined hasked
      (.clause [] [] (.all [] [] (.clause [] [] ?_ nofun) nofun) nofun))
    exact Clause.Exchanges.under (e := .spellOut ["article"] "comments" (.bodyIs "x")) hjoined
      (by rw [List.nil_append, List.map_singleton, htrim.1]; rfl)
  obtain ⟨hselected, houtput⟩ := selected_of_spelledOut (.onItsArticle [.nested (.bodyIs "x")])
    (.onItsArticle [.quantified .some (.bodyIs "x")]) rfl rfl rfl hspelled
    (collection?_issued_blog _ _) (collection?_issued_blog _ _) hq hq'
  exact ⟨q, q', hq, hq', hselected, houtput rfl rfl rfl rfl⟩

/-- Requests that select different numbers of rows do not select the same ones. -/
theorem exists_selected_ne {compiler : Compiler} {r r' : Request} {n n' : Nat}
    (hdifferent : n ≠ n')
    (h : (compiler.compile collection r).toOption.map (fun q => (q.selected db collection).length) =
      some n)
    (h' : (compiler.compile collection r').toOption.map (fun q =>
      (q.selected db collection).length) = some n') :
    ∃ q q', compiler.compile collection r = .ok q ∧ compiler.compile collection r' = .ok q' ∧
      q.selected db collection ≠ q'.selected db collection := by
  obtain ⟨q, hq, hn⟩ := Compiler.exists_compile_with h
  obtain ⟨q', hq', hn'⟩ := Compiler.exists_compile_with h'
  exact ⟨q, q', hq, hq', fun hsame => hdifferent (by rw [← hn, ← hn', hsame])⟩

/-- A bare filter below a joined key also selects a row that leads to no related one, if null meets
it; and of two filters on what one link joins, a single row has to meet both. -/
theorem not_selected_of_spelledOut_blog :
    Schema.blog.HasKeys Database.blog ∧ Schema.blog.HasKeys Database.busy ∧
      (∃ q q', (Schema.blog.compiler {} fun _ => 0).compile "comments"
          (.onItsArticle [.nested .bodyIsNull]) = .ok q ∧
        (Schema.blog.compiler {} fun _ => 0).compile "comments"
          (.onItsArticle [.quantified .some .bodyIsNull]) = .ok q' ∧
        q.selected Database.blog "comments" ≠ q'.selected Database.blog "comments") ∧
      ∃ q q', (Schema.blog.compiler {} fun _ => 0).compile "comments"
          (.onItsArticle [.nested (.bodyIs "x"), .nested (.bodyIs "y")]) = .ok q ∧
        (Schema.blog.compiler {} fun _ => 0).compile "comments"
          (.onItsArticle [.quantified .some (.bodyIs "x"), .nested (.bodyIs "y")]) = .ok q' ∧
        q.selected Database.busy "comments" ≠ q'.selected Database.busy "comments" :=
  ⟨Schema.hasKeys_of_forall (by decide +kernel), hasKeys_busy,
    exists_selected_ne (by decide : 3 ≠ 2) (by decide +kernel) (by decide +kernel),
    exists_selected_ne (by decide : 0 ≠ 2) (by decide +kernel) (by decide +kernel)⟩

end JsonSql
