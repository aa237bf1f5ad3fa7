import JsonSql.Proofs.Projected

set_option autoImplicit false

/-!
# What the names of results tell

A projection goes by the key of its group or by the name of its aggregation.  The name of an
aggregation of a field spells its function and the field, so that one can be told from another
(`Aggregation.resultName_inj`); only the counts of all rows share a name.  The keys of groups are
taken as they are, and nothing keeps them apart from these names.  So the names of a compiled
statement are distinct exactly where the request asks for no group under the name of one of its own
aggregations, and for all rows at most once (`nodup_labels_of_compile`).
-/

namespace JsonSql

/-! ## Names of aggregations -/

namespace Aggregation

variable {a b : Aggregation} {f g : String}

theorem notMem_key (a : Aggregation) : '-' ∉ a.key.toList := by
  cases a <;> decide

/-- What stands before the arrow in the name of a result is the key of its function. -/
theorem takeWhile_arrow (a : Aggregation) (f : String) :
    (a.key ++ "->." ++ f).toList.takeWhile (· ≠ '-') = a.key.toList := by
  have hkey : ∀ c ∈ a.key.toList, decide (c ≠ '-') = true := fun c hc =>
    decide_eq_true fun hdash => a.notMem_key (hdash ▸ hc)
  have harrow : "->.".toList = ['-', '>', '.'] := by decide
  rw [String.toList_append, String.toList_append, harrow, List.append_assoc,
    List.takeWhile_append_of_pos hkey, List.cons_append, List.takeWhile_cons_of_neg (by decide),
    List.append_nil]

/-- A function and a field can be read off the name that is made of them. -/
theorem arrow_inj (h : a.key ++ "->." ++ f = b.key ++ "->." ++ g) : a = b ∧ f = g := by
  have hkeys : a.key = b.key := by
    rw [← String.toList_inj, ← takeWhile_arrow a f, h, takeWhile_arrow]
  obtain rfl : a = b := Option.some.inj (by rw [← ofKey?_key a, hkeys, ofKey?_key])
  refine ⟨rfl, ?_⟩
  rw [← String.toList_inj, String.toList_append, String.toList_append (s := a.key ++ "->.")] at h
  exact String.toList_inj.mp (List.append_cancel_left h)

theorem resultName_eq_arrow (ha : a ≠ countAll) (hrows : ¬(a = count ∧ f = "*")) :
    a.resultName f = a.key ++ "->." ++ f := by
  unfold resultName
  split
  · exact absurd rfl ha
  · exact if_neg hrows

/-- The name of a result tells the function and the field, unless all rows are counted. -/
theorem resultName_inj (ha : a ≠ countAll) (hb : b ≠ countAll)
    (h : a.resultName f = b.resultName g) : a = b ∧ f = g := by
  by_cases hrows : a = count ∧ f = "*"
  · obtain ⟨rfl, rfl⟩ := hrows
    obtain ⟨rfl, rfl⟩ := eq_count_of_resultName h.symm
    exact ⟨rfl, rfl⟩
  · by_cases hrows' : b = count ∧ g = "*"
    · obtain ⟨rfl, rfl⟩ := hrows'
      exact eq_count_of_resultName h
    · rw [resultName_eq_arrow ha hrows, resultName_eq_arrow hb hrows'] at h
      exact arrow_inj h

/-- Only a count of all rows goes by this name. -/
theorem eq_countAll_of_resultName (h : a.resultName f = "countAll") : a = countAll := by
  by_contra hother
  by_cases hrows : a = count ∧ f = "*"
  · obtain ⟨rfl, rfl⟩ := hrows
    exact absurd h (by decide)
  · rw [resultName_eq_arrow hother hrows] at h
    have harrow : '-' ∈ (a.key ++ "->." ++ f).toList := by simp [String.toList_append]
    rw [h] at harrow
    exact absurd harrow (by decide)

end Aggregation

/-! ## Names of the results of a request -/

/-- The pairs of a function and a field that a list of aggregations asks for. -/
def Aggregation.pairs (aggregate : List (Aggregation × List String)) :
    List (Aggregation × String) :=
  aggregate.flatMap fun entry => entry.2.map (entry.1, ·)

section Names

open Aggregation

variable {aggregation : Aggregation} {fields : List String}
  {aggregate : List (Aggregation × List String)}

theorem Aggregation.resultNames_of_ne (h : aggregation ≠ countAll) :
    resultNames (aggregation, fields) = fields.map aggregation.resultName := if_neg h

/-- A name other than that of a count of all rows comes from a pair. -/
theorem Aggregation.exists_pair_of_resultNames {name : String} (hother : name ≠ "countAll")
    (h : name ∈ aggregate.flatMap resultNames) :
    ∃ pair ∈ pairs aggregate, pair.1 ≠ countAll ∧ pair.1.resultName pair.2 = name := by
  obtain ⟨⟨a, fields⟩, hentry, hname⟩ := List.mem_flatMap.mp h
  by_cases ha : a = countAll
  · rw [resultNames, if_pos ha, List.mem_singleton, ha] at hname
    exact absurd hname hother
  · rw [resultNames_of_ne ha] at hname
    obtain ⟨f, hf, rfl⟩ := List.mem_map.mp hname
    exact ⟨(a, f), List.mem_flatMap.mpr ⟨_, hentry, List.mem_map_of_mem hf⟩, ha, rfl⟩

/-- The name of a count of all rows is there where one is asked for. -/
theorem Aggregation.countAll_mem_resultNames :
    "countAll" ∈ aggregate.flatMap resultNames ↔ countAll ∈ aggregate.map Prod.fst := by
  rw [List.mem_flatMap, List.mem_map]
  refine exists_congr fun entry => and_congr_right fun _ => ?_
  obtain ⟨a, fields⟩ := entry
  by_cases ha : a = countAll
  · rw [resultNames, if_pos ha, ha]
    exact iff_of_true (List.mem_singleton.mpr rfl) rfl
  · rw [resultNames_of_ne ha]
    refine iff_of_false (fun hname => ?_) ha
    obtain ⟨f, -, hname⟩ := List.mem_map.mp hname
    exact ha (eq_countAll_of_resultName hname)

/-- The names of pairwise distinct aggregations are distinct where all rows are counted at most
once. -/
theorem Aggregation.nodup_resultNames (h : (pairs aggregate).Nodup) :
    (aggregate.flatMap resultNames).Nodup ↔ (aggregate.map Prod.fst).count countAll ≤ 1 := by
  induction aggregate with
  | nil => exact iff_of_true List.nodup_nil (Nat.zero_le 1)
  | cons entry rest ih =>
    obtain ⟨a, fields⟩ := entry
    rw [pairs, List.flatMap_cons, List.nodup_append] at h
    obtain ⟨hfields, hrest, hapart⟩ := h
    rw [List.flatMap_cons, List.map_cons, List.count_cons]
    by_cases ha : a = countAll
    · -- the one name of this entry is that of any other count of all rows
      have hcount : ((a, fields).1 == countAll) = true := beq_iff_eq.mpr ha
      rw [resultNames, if_pos ha, if_pos hcount, List.singleton_append, List.nodup_cons, ha,
        resultName, countAll_mem_resultNames, ih hrest, ← List.count_eq_zero]
      omega
    · have hcount : ((a, fields).1 == countAll) = false := beq_eq_false_iff_ne.mpr ha
      have hnames : (fields.map a.resultName).Nodup :=
        (List.Nodup.of_map _ hfields).map_on fun f _ g _ heq => (resultName_inj ha ha heq).2
      have hdisjoint : ∀ name ∈ fields.map a.resultName,
          ∀ other ∈ rest.flatMap resultNames, name ≠ other := by
        intro name hname other hother heq
        obtain ⟨f, hf, rfl⟩ := List.mem_map.mp hname
        have hnot : other ≠ "countAll" := heq ▸ mt eq_countAll_of_resultName ha
        obtain ⟨⟨b, g⟩, hpair, hb, hsame⟩ := exists_pair_of_resultNames hnot hother
        obtain ⟨rfl, rfl⟩ := resultName_inj ha hb (heq.trans hsame.symm)
        exact hapart _ (List.mem_map_of_mem hf) _ hpair rfl
      rw [resultNames_of_ne ha, hcount, if_neg Bool.false_ne_true, Nat.add_zero,
        List.nodup_append, ih hrest]
      exact ⟨fun h => h.2.1, fun h => ⟨hnames, h, hdisjoint⟩⟩

end Names

/-- No group of a request is asked for under the name of one of its aggregations, and all rows are
counted at most once. -/
def Request.NamesApart (r : Request) : Prop :=
  (∀ key ∈ r.group, key ∉ r.aggregate.flatMap Aggregation.resultNames) ∧
    (r.aggregate.map Prod.fst).count .countAll ≤ 1

instance (r : Request) : Decidable r.NamesApart :=
  inferInstanceAs (Decidable ((∀ key ∈ r.group, _) ∧ _))

theorem Request.nodup_resultNames {r : Request} (hgroup : r.group.Nodup)
    (hpairs : (Aggregation.pairs r.aggregate).Nodup) : r.resultNames.Nodup ↔ r.NamesApart := by
  rw [resultNames, List.nodup_append, Aggregation.nodup_resultNames hpairs]
  constructor
  · rintro ⟨-, hcount, hapart⟩
    exact ⟨fun key hkey hname => hapart key hkey key hname rfl, hcount⟩
  · rintro ⟨hapart, hcount⟩
    exact ⟨hgroup, hcount, fun key hkey name hname heq => hapart key hkey (heq ▸ hname)⟩

/-! ## Compiled statements -/

/-- The projections of a compiled statement go by the names of the groups and of the aggregations
that are asked for.  Where these are pairwise distinct, the names are distinct exactly if no group
is asked for under the name of an aggregation, and all rows are counted at most once. -/
theorem nodup_labels_of_compile {s : Schema} {options : Options} {letters : Alias.Letters}
    {collection : String} {r : Request} {q : Sql.Query}
    (h : (s.compiler options letters).compile collection r = .ok q) (hgroup : r.group.Nodup)
    (hpairs : (Aggregation.pairs r.aggregate).Nodup) :
    q.items.filterMap Sql.Item.label = r.resultNames ∧
      ((q.items.filterMap Sql.Item.label).Nodup ↔ r.NamesApart) := by
  obtain ⟨applied, happlied, rfl⟩ := Compiler.compile_eq_ok h
  obtain ⟨relations, k, -, happly⟩ := Compiler.apply_eq_ok happlied
  obtain ⟨grouped, summed, hitems, -, hlabels, hsummed⟩ := Context.items_of_apply happly
  have hplain : (Compiler.target collection r).items.filterMap Sql.Item.label = [] := by
    rw [Compiler.items_target]
    split <;> rfl
  have hnames : applied.query.items.filterMap Sql.Item.label = r.resultNames := by
    have hlater : (grouped ++ summed).map Sql.Item.label = r.resultNames.map some := by
      rw [List.map_append, hlabels, hsummed.labels, ← List.map_append, Request.resultNames]
    rw [hitems, List.append_assoc, List.filterMap_append, hplain, List.nil_append]
    calc (grouped ++ summed).filterMap Sql.Item.label
        = ((grouped ++ summed).map Sql.Item.label).filterMap id := by rw [List.filterMap_map]; rfl
      _ = r.resultNames := by rw [hlater, List.filterMap_map]; exact List.filterMap_some
  exact ⟨hnames, hnames ▸ Request.nodup_resultNames hgroup hpairs⟩

theorem nodup_labels_of_compile_blog :
    Request.perAuthor.group.Nodup ∧ (Aggregation.pairs Request.perAuthor.aggregate).Nodup ∧
      ∃ q, (Schema.blog.compiler {} fun _ => 0).compile "articles" .perAuthor = .ok q ∧
        q.items.filterMap Sql.Item.label = ["author", "count", "max->.count(comments)"] ∧
        (q.items.filterMap Sql.Item.label).Nodup := by
  have hgroup : Request.perAuthor.group.Nodup := by decide
  have hpairs : (Aggregation.pairs Request.perAuthor.aggregate).Nodup := by decide
  obtain ⟨q, hq⟩ : ∃ q, (Schema.blog.compiler {} fun _ => 0).compile "articles" .perAuthor =
      .ok q := Compiler.exists_compile (by decide +kernel)
  obtain ⟨hnames, hdistinct⟩ := nodup_labels_of_compile hq hgroup hpairs
  exact ⟨hgroup, hpairs, q, hq, hnames, hdistinct.mpr (by decide +kernel)⟩

/-- Articles that keep a count themselves. -/
def Schema.tallied : Schema where
  collections := [
    { info := { name := "articles", primary := "id" }
      fields := [⟨"id", .integer, [], none⟩, ⟨"count", .integer, [], none⟩] }]

/-- The counts that articles keep, and how many articles keep the same. -/
def Request.tallied : Request where
  group := ["count"]
  aggregate := [(.count, ["*"])]
  limit := some (-1)

/-- The group and the count of all rows of it are projected under one name. -/
theorem labels_of_compile_counted :
    Schema.tallied.validate.isOk = true ∧ Request.tallied.group.Nodup ∧
      (Aggregation.pairs Request.tallied.aggregate).Nodup ∧
      ∃ q, (Schema.tallied.compiler {} fun _ => 0).compile "articles" .tallied = .ok q ∧
        q.items.filterMap Sql.Item.label = ["count", "count"] ∧
        ¬(q.items.filterMap Sql.Item.label).Nodup := by
  obtain ⟨q, hq, hnames⟩ : ∃ q,
      (Schema.tallied.compiler {} fun _ => 0).compile "articles" .tallied = .ok q ∧
        q.items.filterMap Sql.Item.label = ["count", "count"] :=
    Compiler.exists_compile_with (by decide +kernel)
  exact ⟨by decide +kernel, by decide, by decide, q, hq, hnames, hnames ▸ by decide⟩

end JsonSql
