import JsonSql.Proofs.FieldLists
import JsonSql.Proofs.Numerals
import JsonSql.Proofs.Replacements

set_option autoImplicit false

/-!
# Lists of values in a text

An operator that takes several values reads them from a list or from one text with commas between
them.  Texts without commas and blanks at their ends are the same values either way, on every
column; integers are where the column holds numbers, which also the functions of fields do.  So it
does not matter to a request in which way the values of a comparison are written, wherever in its
filter the comparison stands.
-/

namespace JsonSql

open JsonSql.Decimal
open JsonSql.Sql

/-! ## Integers and their numerals -/

namespace Decimal

theorem readDigits?_natText (n : Nat) : readDigits? (toString n).toList = some n := by
  have hdigits : (toString n).toList.all Char.isDigit = true :=
    List.all_eq_true.mpr fun _ => isDigit_of_mem_natText
  rw [readDigits?, if_pos ⟨natText_ne_nil n, hdigits⟩, natText_toList]
  exact congrArg some (Nat.ofDigitChars_ten_toDigits)

/-- Digits have no sign. -/
theorem takeSign_natText (n : Nat) :
    takeSign (toString n).toList = (false, (toString n).toList) := by
  have hdigits : ∀ c ∈ (toString n).toList, c.isDigit = true := fun _ => isDigit_of_mem_natText
  generalize (toString n).toList = cs at hdigits
  unfold takeSign
  split
  · exact absurd (hdigits '-' List.mem_cons_self) (by decide)
  · exact absurd (hdigits '+' List.mem_cons_self) (by decide)
  · rfl

/-- An integer is read back from its numeral. -/
theorem readInt?_intText (n : Int) : readInt? (toString n) = some n := by
  cases n with
  | ofNat n =>
    have htext : toString (Int.ofNat n) = toString n := rfl
    rw [readInt?, htext, takeSign_natText]
    dsimp only
    rw [readDigits?_natText]
    rfl
  | negSucc n =>
    rw [readInt?, negText_toList, takeSign]
    dsimp only
    rw [readDigits?_natText]
    rfl

theorem readInt64?_intText {n : Int} (h : FitsInt64 n) : readInt64? (toString n) = some n := by
  rw [readInt64?, readInt?_intText, Option.filter_some, if_pos (decide_eq_true h)]

/-- A numeral is digits, with a minus in front of a negative one. -/
theorem isDigit_of_mem_intText {n : Int} {c : Char} (h : c ∈ (toString n).toList) :
    c = '-' ∨ c.isDigit = true := by
  cases n with
  | ofNat n => exact .inr (isDigit_of_mem_natText h)
  | negSucc n =>
    rw [negText_toList] at h
    exact (List.mem_cons.mp h).imp_right isDigit_of_mem_natText

end Decimal

/-! ## The two forms -/

/-- Texts that are told apart in one text with commas between them. -/
def ArePlainTexts (texts : List String) : Prop :=
  ∀ text ∈ texts, ',' ∉ text.toList ∧ Text.trim text = text

/-- Integers one by one. -/
def Json.ofInts (ns : List Int) : Json := .array (ns.map fun n => .number (.int n))

theorem ArePlainTexts.ofInts (ns : List Int) : ArePlainTexts (ns.map toString) := by
  refine List.forall_mem_map.mpr fun n _ => ⟨fun hcomma => ?_, ?_⟩
  · rcases isDigit_of_mem_intText hcomma with h | h <;> revert h <;> decide
  · have hblank {c : Char} (h : c ∈ (toString n).toList) : Text.isBlank c = false := by
      rcases isDigit_of_mem_intText h with rfl | hdigit
      · decide
      · exact Text.isBlank_of_isDigit hdigit
    rw [Text.trim, Text.trimChars_eq_self, String.ofList_toList]
    · exact fun c hc => hblank (List.mem_of_mem_head? hc)
    · exact fun c hc => hblank (List.mem_of_getLast? hc)

/-- A list of values, and one text with commas that stands for it: texts, or integers of 64 bits
where the column holds numbers. -/
inductive Json.ListsAlike (numbers : Prop) : Json → Json → Prop
  | texts {texts : List String} : texts ≠ [] → ArePlainTexts texts →
      ListsAlike numbers (.ofTexts texts) (.ofJoined texts)
  | integers {ns : List Int} : ns ≠ [] → (∀ n ∈ ns, FitsInt64 n) → numbers →
      ListsAlike numbers (.ofInts ns) (.ofJoined (ns.map toString))

/-- The keys of operators that take several values. -/
def listKeys : List String := ["_in", "_nin", "_between", "_nbetween"]

/-- A comparison by an operator that takes several values, read from a list and read from one text
with commas. -/
inductive Comparison.Relists (numbers : Prop) : Comparison → Comparison → Prop
  | read {key : String} {list text : Json} {x y : Comparison} :
      key ∈ listKeys → list.ListsAlike numbers text → Filter.readComparison key list = .ok x →
      Filter.readComparison key text = .ok y → Relists numbers x y

/-- Nothing is left out of values that are no nulls. -/
theorem Json.filter_isNull {α : Type} {f : α → Json} (h : ∀ a, (f a).isNull = false) (xs : List α) :
    (xs.map f).filter (fun item => !item.isNull) = xs.map f := by
  rw [List.filter_eq_self]
  exact List.forall_mem_map.mpr fun a _ => by rw [h a, Bool.not_false]

/-! ## Literals -/

namespace Sql.Literal

variable {d : Dialect} {kind : ValueKind}

/-- Several values are taken one by one, or from one text. -/
theorem list_ofTexts {arity : Arity} (harity : arity = .list ∨ arity = .pair)
    (texts : List String) :
    list d kind arity (.ofTexts texts) = texts.map (ofText d kind) := by
  have hsome := Json.filter_isNull (f := .string) (fun _ => rfl) texts
  rcases harity with rfl | rfl <;>
    simp only [list, Json.ofTexts, hsome, List.map_map] <;> rfl

theorem list_ofJoined {arity : Arity} (harity : arity = .list ∨ arity = .pair) {texts : List String}
    (hne : texts ≠ []) (hplain : ArePlainTexts texts) :
    list d kind arity (.ofJoined texts) = texts.map (ofText d kind) := by
  have hsplit :
      (Text.split ',' (Text.join ',' texts)).map (fun piece => Json.string (Text.trim piece)) =
        texts.map .string := by
    rw [Text.split_join hne fun text htext => (hplain text htext).1]
    exact List.map_congr_left fun text htext => congrArg Json.string (hplain text htext).2
  have hlist : list d kind arity (.ofJoined texts) = list d kind arity (.ofTexts texts) := by
    rcases harity with rfl | rfl <;> simp only [list, Json.ofJoined, hsplit] <;> rfl
  rw [hlist, list_ofTexts harity]

/-- An integer of 64 bits and its numeral are the same number. -/
theorem ofNumeral_intText {n : Int} (h : FitsInt64 n) : ofNumeral (toString n) = .int n := by
  have htrim : Text.trim (toString n) = toString n :=
    (ArePlainTexts.ofInts [n] _ (by simp)).2
  delta ofNumeral
  rw [htrim, readInt64?_intText h]

theorem list_ofInts {arity : Arity} (harity : arity = .list ∨ arity = .pair) {ns : List Int}
    (hns : ∀ n ∈ ns, FitsInt64 n) :
    list d .number arity (.ofInts ns) = (ns.map toString).map (ofText d .number) := by
  have hsome := Json.filter_isNull (f := fun n => .number (.int n)) (fun _ => rfl) ns
  have hone : ∀ n ∈ ns, ofJson d .number (.number (.int n)) = ofText d .number (toString n) := by
    intro n hn
    have hint : ofNumber (.int n) = .int n := if_pos (hns n hn).2
    rw [ofText, ofNumeral_intText (hns n hn), ofJson]
    exact hint
  have hlist : list d .number arity (.ofInts ns) =
      (ns.map fun n => Json.number (.int n)).map (ofJson d .number) := by
    rcases harity with rfl | rfl <;> simp only [list, Json.ofInts, hsome]
  rw [hlist]
  simp only [List.map_map, Function.comp_def]
  exact List.map_congr_left hone

/-- Both forms of a list of values are the same literals. -/
theorem list_eq_of_listsAlike {arity : Arity} (harity : arity = .list ∨ arity = .pair)
    {values text : Json} (h : values.ListsAlike (kind = .number) text) :
    list d kind arity values = list d kind arity text := by
  cases h with
  | texts hne hplain => rw [list_ofTexts harity, list_ofJoined harity hne hplain]
  | integers hne hns hnumbers =>
    rw [hnumbers, list_ofInts harity hns,
      list_ofJoined harity (mt List.map_eq_nil_iff.mp hne) (.ofInts _)]

end Sql.Literal

/-! ## Comparisons -/

/-- Neither form of a list is absent, and neither holds nulls. -/
theorem Json.ListsAlike.comparedValue {numbers : Prop} {values text : Json}
    (h : values.ListsAlike numbers text) :
    Filter.comparedValue values = some values ∧ Filter.comparedValue text = some text := by
  cases h with
  | texts hne hplain =>
    refine ⟨?_, rfl⟩
    rw [Json.ofTexts, Filter.comparedValue, Json.filter_isNull fun _ => rfl]
  | integers hne hns hnumbers =>
    refine ⟨?_, rfl⟩
    rw [Json.ofInts, Filter.comparedValue, Json.filter_isNull fun _ => rfl]

theorem Json.ListsAlike.mono {numbers numbers' : Prop} {values text : Json}
    (h : values.ListsAlike numbers text) (himp : numbers → numbers') :
    values.ListsAlike numbers' text := by
  cases h with
  | texts hne hplain => exact .texts hne hplain
  | integers hne hns hnumbers => exact .integers hne hns (himp hnumbers)

/-- The operators that take several values. -/
theorem exists_of_mem_listKeys {key : String} (h : key ∈ listKeys) :
    ∃ op, Operator.ofKey? key = some op ∧ (op.arity = .list ∨ op.arity = .pair) ∧
      ∀ (d : Dialect) (column : Expr) (values : List Literal) (kept kept' : Bool),
        op.predicate? d column values kept = op.predicate? d column values kept' := by
  simp only [listKeys, List.mem_cons, List.not_mem_nil, or_false] at h
  rcases h with rfl | rfl | rfl | rfl
  · exact ⟨.oneOf false, Operator.ofKey?_key (.oneOf false), .inl rfl, fun _ _ _ _ _ => rfl⟩
  · exact ⟨.oneOf true, Operator.ofKey?_key (.oneOf true), .inl rfl, fun _ _ _ _ _ => rfl⟩
  · exact ⟨.between false, Operator.ofKey?_key (.between false), .inr rfl, fun _ _ _ _ _ => rfl⟩
  · exact ⟨.between true, Operator.ofKey?_key (.between true), .inr rfl, fun _ _ _ _ _ => rfl⟩

namespace Context

variable {c : Context}

/-- Both comparisons have the same predicate, or none, or fail alike. -/
theorem compare?_eq_of_relists {column : Column} {x y : Comparison} {numbers : Prop}
    (h : x.Relists numbers y) (hcolumn : numbers → column.valueKind = .number) :
    c.compare? column x = c.compare? column y := by
  obtain ⟨hkey, hlists, hx, hy⟩ := h
  obtain ⟨op, hop, harity, hkept⟩ := exists_of_mem_listKeys hkey
  obtain ⟨hvalues, htext⟩ := hlists.comparedValue
  rw [Filter.readComparison, hop] at hx hy
  obtain rfl := Except.ok.inj hx
  obtain rfl := Except.ok.inj hy
  -- Whether an operator is kept is read from its value, of which the two forms may tell different
  -- things; those that take several values do not ask.
  have hliterals := Literal.list_eq_of_listsAlike (d := c.dialect) harity (hlists.mono hcolumn)
  simp only [compare?, hvalues, htext, Option.isNone_some, Bool.false_eq_true, and_false, if_false,
    hliterals]
  exact bind_congr fun _ => hkept _ _ _ _ _

/-- The comparisons of a column, with one of them read from a list or from a text. -/
theorem compareAll?_eq_of_relists {column : Column} {x y : Comparison} {numbers : Prop}
    (h : x.Relists numbers y) (hcolumn : numbers → column.valueKind = .number)
    (before after : List Comparison) :
    c.compareAll? column (before ++ x :: after) = c.compareAll? column (before ++ y :: after) := by
  simp only [compareAll?, List.mapM_append, List.mapM_cons, compare?_eq_of_relists h hcolumn]

/-- The field at the end of a key holds numbers, or the function of the field gives numbers. -/
def HoldsNumbers (c : Context) (site : Site) (key : String) : Prop :=
  ∀ type, c.typeAt? (c.siteOf site key).collection
    ((c.siteOf site key).parents ++ [Text.trim (lastSegment key)]) = some type →
    type.valueKind = .number

end Context

/-! ## Filters -/

/-- A comparison of a field reads its values from a list, and from one text with commas. -/
inductive Clause.Relists (c : Context) : Site → Clause → Clause → Prop
  | compare {site : Site} {key : String} {x y : Comparison} (before after : List Comparison) :
      x.Relists (c.HoldsNumbers site key) y →
      Clause.Relists c site (.field key (.compare (before ++ x :: after)))
        (.field key (.compare (before ++ y :: after)))

variable {c : Context} {site : Site}

/-- The form of a list of values does not matter to the clause that it stands in. -/
theorem Clause.Relists.alike {κ : Type} {kind : QueryError → κ} {x y : Clause}
    (hsite : IsPath site.parents) (h : x.Relists c site y) :
    Clause.Alike c kind site x.unfolded y.unfolded := by
  cases h with
  | @compare key a b before after hlists =>
    have hparents := Context.isPath_siteOf (c := c) hsite key
    refine Clause.Alike.field ⟨?_, fun hops hleads => ?_⟩
    · simp only [Context.clausePaths, FieldCondition.unfolded, Context.conditionPaths]
    · rw [Context.clauseCondition?, Context.clauseCondition?, FieldCondition.unfolded,
        FieldCondition.unfolded, Context.fieldCondition?, Context.fieldCondition?]
      split
      · exact (Compile.SameUpTo.refl _).bind fun _ _ _ h => absurd h Compile.not_gives_throw
      refine (Compile.SameUpTo.refl _).bind fun column k k' hcolumn => ?_
      have hkind : c.HoldsNumbers site key → column.valueKind = .number := fun hnumbers =>
        (Context.valueKind_of_column hcolumn).trans
          (hnumbers _ (Context.typeAt?_of_column hleads hparents hcolumn).1)
      rw [Context.compareAll?_eq_of_relists hlists hkind]
      exact .refl _

/-- Whether a comparison reads its values from a list or from one text with commas changes neither
the statement and the flag that come out of a request nor the error, wherever in the filter of the
request the comparison stands. -/
theorem apply_of_relists {s : Schema} {options : Options} {names : Nat → String}
    {collection : String} {f g : Filter}
    (h : f.Replaces (s.context options names) (Clause.Relists (s.context options names))
      { collection } g)
    (q : Query) (r : Request) (inner : Bool) :
    Compiler.apply { provider := s.provider, options, names } collection q
        { r with filter := some f } inner =
      Compiler.apply { provider := s.provider, options, names } collection q
        { r with filter := some g } inner := by
  have hid (x : Except QueryError Applied) : x.mapError id = x := by cases x <;> rfl
  have halike : f.unfolded.Alike (s.context options names) id { collection } g.unfolded :=
    h.alike (fun hsite h => h.alike hsite) isPath_nil
  have hsame := Compiler.apply_of_alike halike q r inner
  rwa [hid, hid] at hsame

/-- One comparison of the field under a key. -/
def Filter.blogCompare (key : String) (operator : Operator) (value : Json) : Filter :=
  .of (.field key (.compare [⟨operator, some value⟩]))

/-- Names that the author of a comment does not have, and numbers of comments, which a function
gives, below an alternative. -/
theorem apply_of_relists_blog :
    (∃ applied,
      (Compiler.blog .postgres).apply "articles" (Compiler.target "articles" {})
        { filter := some (.blogCompare "comments.author.name" (.oneOf true)
          (.array [.string "Ann", .string "Bob"])) } false = .ok applied ∧
      (Compiler.blog .postgres).apply "articles" (Compiler.target "articles" {})
        { filter := some (.blogCompare "comments.author.name" (.oneOf true)
          (.string "Ann,Bob")) } false = .ok applied) ∧
    ∃ applied,
      (Compiler.blog .postgres).apply "articles" (Compiler.target "articles" {})
        { filter := some ⟨[.any [.blogCompare "count(comments)" (.between false)
          (.array [.number (.int (-1)), .number (.int 5)])]]⟩ } false = .ok applied ∧
      (Compiler.blog .postgres).apply "articles" (Compiler.target "articles" {})
        { filter := some ⟨[.any [.blogCompare "count(comments)" (.between false)
          (.string "-1,5")]]⟩ } false = .ok applied := by
  have hplain : ArePlainTexts ["Ann", "Bob"] := by
    unfold ArePlainTexts
    decide +kernel
  have hnames {numbers : Prop} : Comparison.Relists numbers
      ⟨.oneOf true, some (.array [.string "Ann", .string "Bob"])⟩
      ⟨.oneOf true, some (.string "Ann,Bob")⟩ :=
    .read (by decide : "_nin" ∈ listKeys) (.texts (by decide) hplain) rfl rfl
  have hinteger : (Schema.blog.context {} Alias.sequential).typeAt? "articles"
      ["count(comments)"] = some .integer := by decide +kernel
  have hcount : (Schema.blog.context {} Alias.sequential).HoldsNumbers
      { collection := "articles" } "count(comments)" := by
    intro type htype
    obtain rfl : FieldType.integer = type := Option.some.inj (hinteger.symm.trans htype)
    rfl
  have hbounds : Comparison.Relists
      ((Schema.blog.context {} Alias.sequential).HoldsNumbers { collection := "articles" }
        "count(comments)")
      ⟨.between false, some (.array [.number (.int (-1)), .number (.int 5)])⟩
      ⟨.between false, some (.string "-1,5")⟩ :=
    .read (by decide : "_between" ∈ listKeys)
      (.integers (by decide : [-1, 5] ≠ []) (by unfold FitsInt64; decide) hcount) rfl rfl
  have happlied {f g : Filter}
      (h : f.Replaces (Schema.blog.context {} Alias.sequential)
        (Clause.Relists (Schema.blog.context {} Alias.sequential)) { collection := "articles" } g)
      (hok : ((Compiler.blog .postgres).apply "articles" (Compiler.target "articles" {})
        { filter := some f } false).isOk = true) :
      ∃ applied,
        (Compiler.blog .postgres).apply "articles" (Compiler.target "articles" {})
          { filter := some f } false = .ok applied ∧
        (Compiler.blog .postgres).apply "articles" (Compiler.target "articles" {})
          { filter := some g } false = .ok applied := by
    exact Except.exists_ok_of_mapError_eq (congrArg (Except.mapError id)
      (apply_of_relists h (Compiler.target "articles" {}) {} false)) hok
  refine ⟨happlied ?_ (by decide +kernel), happlied ?_ (by decide +kernel)⟩
  · exact .clause [] [] (.here (.compare [] [] hnames))
  · exact .clause [] [] (.any [] [] (.clause [] [] (.here (.compare [] [] hbounds))))

end JsonSql
