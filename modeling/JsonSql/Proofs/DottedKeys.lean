import JsonSql.Proofs.Compiled

set_option autoImplicit false

/-!
# Dotted keys and nested keys

A key `a.r` asks of a field what the key `a` with the key `r` nested in it asks.  The two passes
over a filter split a dotted key each for itself, and a link to several rows at the root takes the
part after the dot into the filter of its rows.  All of this is the same as reading the nested
filter: wherever in a filter a key is split in two, the compilation gives the same result, or fails
in the same way.
-/

namespace JsonSql

open JsonSql.Sql

mutual
/-- The second filter is the first one with a dotted key at one place split at its first dot. -/
inductive Filter.SplitsKey : Filter → Filter → Prop
  | clause (before after : List Clause) {x y : Clause} :
      x.SplitsKey y → Filter.SplitsKey ⟨before ++ x :: after⟩ ⟨before ++ y :: after⟩

/-- The second clause is the first one with a dotted key at one place split at its first dot. -/
inductive Clause.SplitsKey : Clause → Clause → Prop
  | key {root : String} (rest : String) (condition : FieldCondition) :
      IsSegment root → Text.trim root = root →
      Clause.SplitsKey (.field (root ++ "." ++ rest) condition)
        (.field root (.nested (.of (.field rest condition))))
  | all (before after : List Filter) {f g : Filter} :
      f.SplitsKey g → Clause.SplitsKey (.all (before ++ f :: after)) (.all (before ++ g :: after))
  | any (before after : List Filter) {f g : Filter} :
      f.SplitsKey g → Clause.SplitsKey (.any (before ++ f :: after)) (.any (before ++ g :: after))
  | nested (key : String) {f g : Filter} :
      f.SplitsKey g → Clause.SplitsKey (.field key (.nested f)) (.field key (.nested g))
  | quantified (key : String) (quantifier : Quantifier) {f g : Filter} :
      f.SplitsKey g →
      Clause.SplitsKey (.field key (.quantified quantifier f))
        (.field key (.quantified quantifier g))
end

/-! ## Unfolded forms -/

theorem Text.split_append_dot {root : String} (h : IsSegment root) (rest : String) :
    Text.split '.' (root ++ "." ++ rest) = root :: Text.split '.' rest := by
  have hchars : (root ++ "." ++ rest).toList = root.toList ++ '.' :: rest.toList := by simp
  rw [Text.split, hchars, Text.splitChars_append h, List.map_cons, String.ofList_toList]
  rfl

/-- A key of one segment stands for itself. -/
theorem Clause.unfolded_field {key : String} (h : IsSegment key) (condition : FieldCondition) :
    (Clause.field key condition).unfolded = .field key condition.unfolded := by
  rw [Clause.unfolded, Text.split, Text.splitChars_of_notMem h]
  simp [Clause.along]

theorem Filter.unfoldedClauses_eq_map (clauses : List Clause) :
    Filter.unfoldedClauses clauses = clauses.map Clause.unfolded := by
  induction clauses with
  | nil => rfl
  | cons clause rest ih => rw [Filter.unfoldedClauses, List.map_cons, ih]

theorem Filter.unfoldedAll_eq_map (filters : List Filter) :
    Filter.unfoldedAll filters = filters.map Filter.unfolded := by
  induction filters with
  | nil => rfl
  | cons f rest ih => rw [Filter.unfoldedAll, List.map_cons, ih]

mutual
/-- Splitting a key leaves the unfolded form of a filter as it is. -/
theorem Filter.SplitsKey.unfolded_eq : ∀ {f g : Filter}, f.SplitsKey g → f.unfolded = g.unfolded
  | _, _, .clause before after hclause => by
    rw [Filter.unfolded, Filter.unfolded, Filter.unfoldedClauses_eq_map,
      Filter.unfoldedClauses_eq_map, List.map_append, List.map_append, List.map_cons,
      List.map_cons, hclause.unfolded_eq]

theorem Clause.SplitsKey.unfolded_eq : ∀ {x y : Clause}, x.SplitsKey y → x.unfolded = y.unfolded
  | _, _, .key rest condition hroot htrim => by
    rw [Clause.unfolded, Text.split_append_dot hroot,
      Clause.along_cons (Text.split_ne_nil '.' rest), Clause.unfolded_field hroot, htrim,
      FieldCondition.unfolded, Filter.of, Filter.of, Filter.unfolded,
      Filter.unfoldedClauses_eq_map, List.map_singleton, Clause.unfolded]
  | _, _, .all before after hfilter | _, _, .any before after hfilter => by
    rw [Clause.unfolded, Clause.unfolded, Filter.unfoldedAll_eq_map, Filter.unfoldedAll_eq_map,
      List.map_append, List.map_append, List.map_cons, List.map_cons, hfilter.unfolded_eq]
  | _, _, .nested key hfilter | _, _, .quantified key quantifier hfilter => by
    rw [Clause.unfolded, Clause.unfolded, FieldCondition.unfolded, FieldCondition.unfolded,
      hfilter.unfolded_eq]
end

/-! ## Compilations -/

namespace Context

/-- Filters with one unfolded form are added alike. -/
theorem restrict_congr (c : Context) {inner : Bool} {collection : String} {f g : Filter}
    (h : f.unfolded = g.unfolded) (scope : Scope) :
    c.restrict inner collection scope f = c.restrict inner collection scope g := by
  rw [restrict_eq, restrict_eq, h]

/-- Requests whose filters have one unfolded form are added alike, from any count of aliases. -/
theorem apply_congr (c : Context) {f g : Filter} (h : f.unfolded = g.unfolded)
    (collection : String) (q : Query) (r : Request) (inner : Bool) :
    c.apply collection q { r with filter := some f } inner =
      c.apply collection q { r with filter := some g } inner := by
  have hstage : c.filterStage collection inner { r with filter := some f } =
      c.filterStage collection inner { r with filter := some g } :=
    funext fun scope => c.restrict_congr h scope
  rw [apply_eq, apply_eq, hstage]
  rfl

end Context

/-- Splitting a dotted key at its first dot, anywhere in the filter of a request, changes neither
the statement and the flag that come out, nor the aliases issued on the way, nor the error. -/
theorem apply_of_splitsKey {f g : Filter} (h : f.SplitsKey g) (collection : String) (q : Query)
    (r : Request) (inner : Bool) :
    (∀ compiler : Compiler, compiler.apply collection q { r with filter := some f } inner =
      compiler.apply collection q { r with filter := some g } inner) ∧
    ∀ (c : Context) (k : Nat), (c.apply collection q { r with filter := some f } inner).run k =
      (c.apply collection q { r with filter := some g } inner).run k := by
  have happly (c : Context) := c.apply_congr h.unfolded_eq collection q r inner
  refine ⟨fun compiler => ?_, fun c k => by rw [happly c]⟩
  rw [Compiler.apply, Compiler.apply]
  refine bind_congr fun relations => ?_
  dsimp only
  rw [happly]

/-- `Request.blog` with the key below the comments split. -/
def Filter.blogSplit : Filter :=
  ⟨[.any [
    .of (.field "comments" (.quantified .some (.of (.field "author" (.nested
      (.of (.field "name" (.compare [⟨.equal false false, some (.string "Ann")⟩])))))))),
    ⟨[.field "author.id" (.compare [⟨.null false, none⟩]),
      .field "count(comments)" (.compare [⟨.greater, some (.number (.int 1))⟩])]⟩]]⟩

theorem apply_of_splitsKey_blog :
    ∃ f, Request.blog.filter = some f ∧ f.SplitsKey Filter.blogSplit ∧
      ∃ applied, (Compiler.blog .postgres).apply "articles" (Compiler.target "articles" {})
          Request.blog false = .ok applied ∧
        (Compiler.blog .postgres).apply "articles" (Compiler.target "articles" {})
          { Request.blog with filter := some Filter.blogSplit } false = .ok applied := by
  have hsplits : Filter.SplitsKey _ Filter.blogSplit :=
    .clause [] [] (.any [] _ (.clause [] [] (.quantified "comments" .some
      (.clause [] [] (.key "name" (.compare [⟨.equal false false, some (.string "Ann")⟩])
        (by unfold IsSegment; decide) (by decide +kernel))))))
  have hok : ((Compiler.blog .postgres).apply "articles" (Compiler.target "articles" {})
      Request.blog false).isOk = true := by decide +kernel
  refine ⟨_, rfl, hsplits, ?_⟩
  cases happlied : (Compiler.blog .postgres).apply "articles" (Compiler.target "articles" {})
      Request.blog false with
  | error e =>
    rw [happlied] at hok
    cases hok
  | ok applied =>
    refine ⟨applied, rfl, ?_⟩
    rw [← happlied]
    exact ((apply_of_splitsKey hsplits "articles" _ Request.blog false).1 _).symm

end JsonSql
