import JsonSql.Proofs.Compiled
import JsonSql.Proofs.Paths
import JsonSql.Request.Reader

set_option autoImplicit false

/-!
# Lists of fields in a text

A request may give the keys of a list of fields as one text, with commas between them.  The text is
split at every comma, so it is read as the keys exactly if none of them has a comma in it; the key
of a field behind an undeclared relation has, between its brackets.
-/

namespace JsonSql

open JsonSql.Sql

namespace Text

/-- Splitting at a separator splits what stands on its two sides. -/
theorem splitChars_append_cons (sep : Char) (cs rest : List Char) :
    splitChars sep (cs ++ sep :: rest) = splitChars sep cs ++ splitChars sep rest := by
  induction cs with
  | nil => simp [splitChars]
  | cons c cs ih =>
    rw [List.cons_append, splitChars, splitChars, ih]
    split
    · rfl
    · cases hpieces : splitChars sep cs with
      | nil => exact absurd hpieces (splitChars_ne_nil sep cs)
      | cons piece pieces => rfl

theorem splitChars_joinChars_eq_flatMap {sep : Char} {pieces : List (List Char)}
    (hne : pieces ≠ []) : splitChars sep (joinChars sep pieces) =
      pieces.flatMap (splitChars sep) := by
  induction pieces with
  | nil => exact absurd rfl hne
  | cons piece rest ih =>
    cases rest with
    | nil => simp [joinChars]
    | cons next more =>
      rw [joinChars, splitChars_append_cons, ih (List.cons_ne_nil next more), List.flatMap_cons]
      · rfl
      · exact List.cons_ne_nil next more

/-- Joined texts are split into the pieces of each. -/
theorem split_join_eq_flatMap {sep : Char} {texts : List String} (hne : texts ≠ []) :
    split sep (join sep texts) = texts.flatMap (split sep) := by
  rw [split, join, String.toList_ofList,
    splitChars_joinChars_eq_flatMap (mt List.map_eq_nil_iff.mp hne), List.flatMap_map,
    List.map_flatMap]
  rfl

theorem split_of_notMem {sep : Char} {s : String} (h : sep ∉ s.toList) : split sep s = [s] := by
  simp [split, splitChars_of_notMem h]

theorem notMem_of_mem_split {sep : Char} {s piece : String} (h : piece ∈ split sep s) :
    sep ∉ piece.toList := by
  obtain ⟨cs, hcs, rfl⟩ := List.mem_map.mp h
  rw [String.toList_ofList]
  exact notMem_of_mem_splitChars hcs

end Text

/-! ## The two forms -/

/-- Texts one by one. -/
def Json.ofTexts (texts : List String) : Json := .array (texts.map .string)

/-- Texts in one, with commas between them. -/
def Json.ofJoined (texts : List String) : Json := .string (Text.join ',' texts)

namespace Request

variable {keys : List String}

/-- Keys that say something and have no blanks around them. -/
def AreKeys (keys : List String) : Prop := ∀ key ∈ keys, key ≠ "" ∧ Text.trim key = key

instance (keys : List String) : Decidable (AreKeys keys) :=
  inferInstanceAs (Decidable (∀ key ∈ keys, _))

theorem AreKeys.map_trim (hkeys : AreKeys keys) : keys.map Text.trim = keys :=
  (List.map_congr_left fun key hkey => (hkeys key hkey).2).trans (List.map_id keys)

theorem readFields_ofTexts (keys : List String) (name : String) :
    readFields name (.ofTexts keys) = .ok (keys.map Text.trim) := by
  rw [Json.ofTexts, readFields]
  induction keys with
  | nil => rfl
  | cons key rest ih => rw [List.map_cons, List.mapM_cons, ih]; rfl

/-- A text with commas is split at every one of them. -/
theorem readFields_ofJoined (keys : List String) (name : String) :
    readFields name (.ofJoined keys) =
      .ok (((keys.flatMap (Text.split ',')).map Text.trim).filter fun field => field ≠ "") := by
  cases keys with
  | nil => rfl
  | cons key rest =>
    rw [Json.ofJoined, readFields, Text.split_join_eq_flatMap (List.cons_ne_nil key rest)]

/-- A text with commas is read as the keys in it if they have none. -/
theorem readFields_ofJoined_iff (hkeys : AreKeys keys) (name : String) :
    readFields name (.ofJoined keys) = .ok keys ↔ ∀ key ∈ keys, ',' ∉ key.toList := by
  rw [readFields_ofJoined]
  constructor
  · intro h key hkey
    rw [← Except.ok.inj h] at hkey
    obtain ⟨piece, hpiece, rfl⟩ := List.mem_map.mp (List.mem_filter.mp hkey).1
    obtain ⟨whole, -, hpiece⟩ := List.mem_flatMap.mp hpiece
    exact mt Text.mem_of_mem_trim (Text.notMem_of_mem_split hpiece)
  · intro h
    have hpieces : keys.flatMap (Text.split ',') = keys := by
      rw [List.flatMap_congr fun key hkey => Text.split_of_notMem (h key hkey)]
      exact List.flatMap_singleton' keys
    rw [hpieces, hkeys.map_trim, List.filter_eq_self.mpr]
    exact fun key hkey => decide_eq_true (hkeys key hkey).1

/-! ## Requests -/

/-- Two forms of one list of fields make the same parameter. -/
theorem readParameter_congr {name : String} (hname : name ∈ ["sort", "group", "groupBy"])
    {fields other : Json} (h : ∀ name, readFields name fields = readFields name other)
    (r : Request) : readParameter r name fields = readParameter r name other := by
  simp only [List.mem_cons, List.not_mem_nil, or_false] at hname
  rcases hname with rfl | rfl | rfl <;> simp only [readParameter, h]

/-- Two forms of the fields of one function make the same aggregate. -/
theorem readAggregate_congr {fields other : Json}
    (h : ∀ name, readFields name fields = readFields name other) (key : String)
    (above below : List (String × Json)) :
    readAggregate (.object (above ++ (key, fields) :: below)) =
      readAggregate (.object (above ++ (key, other) :: below)) := by
  have hone : readAggregation key fields = readAggregation key other := by
    simp only [readAggregation, h]
  simp only [readAggregate, List.mapM_append, List.mapM_cons, hone]

/-- Two values of one parameter that are read alike make the same request. -/
theorem ofJson_congr {name : String} {value other : Json} (hvalue : value.isNull = false)
    (hother : other.isNull = false)
    (h : ∀ r, readParameter r name value = readParameter r name other)
    (before after : List (String × Json)) :
    ofJson (.object (before ++ (name, value) :: after)) =
      ofJson (.object (before ++ (name, other) :: after)) := by
  simp only [ofJson, List.filter_append, List.foldlM_append, List.filter_cons, hvalue, hother,
    Bool.not_false, if_true, List.foldlM_cons, h]

/-- Keys of fields one by one are read as they are, and as one text with commas exactly if none of
them has a comma in it.  If none has, a request means the same with either form, for its ordering,
its groups and every function of its aggregate. -/
theorem readFields_forms (hkeys : AreKeys keys) :
    (∀ name, readFields name (.ofTexts keys) = .ok keys) ∧
      (∀ name, readFields name (.ofJoined keys) = .ok keys ↔ ∀ key ∈ keys, ',' ∉ key.toList) ∧
      ((∀ key ∈ keys, ',' ∉ key.toList) → ∀ before after : List (String × Json),
        (∀ name ∈ ["sort", "group", "groupBy"],
          ofJson (.object (before ++ (name, .ofTexts keys) :: after)) =
            ofJson (.object (before ++ (name, .ofJoined keys) :: after))) ∧
        ∀ (function : String) (above below : List (String × Json)),
          ofJson (.object (before ++
              ("aggregate", .object (above ++ (function, .ofTexts keys) :: below)) :: after)) =
            ofJson (.object (before ++
              ("aggregate", .object (above ++ (function, .ofJoined keys) :: below)) :: after))) := by
  have htexts (name : String) : readFields name (.ofTexts keys) = .ok keys := by
    rw [readFields_ofTexts, hkeys.map_trim]
  refine ⟨htexts, readFields_ofJoined_iff hkeys, fun hcommas before after => ?_⟩
  have hforms (name : String) :
      readFields name (.ofTexts keys) = readFields name (.ofJoined keys) :=
    (htexts name).trans ((readFields_ofJoined_iff hkeys name).mpr hcommas).symm
  refine ⟨?_, ?_⟩
  · intro name hname
    exact ofJson_congr rfl rfl (readParameter_congr hname hforms) before after
  · intro function above below
    refine ofJson_congr rfl rfl (fun r => ?_) before after
    simp only [readParameter, readAggregate_congr hforms function above below]

/-- Two orderings, the one descending, and a sum over a path. -/
theorem readFields_forms_blog :
    AreKeys ["-author.name", "title"] ∧ (∀ key ∈ ["-author.name", "title"], ',' ∉ key.toList) ∧
      Json.ofJoined ["-author.name", "title"] = .string "-author.name,title" ∧
      ofJson (.object [("sort", .ofTexts ["-author.name", "title"]), ("limit", .string "2")]) =
        ofJson (.object [("sort", .string "-author.name,title"), ("limit", .string "2")]) ∧
      ofJson (.object [("aggregate", .object [("max", .ofTexts ["-author.name", "title"])])]) =
        ofJson (.object [("aggregate", .object [("max", .string "-author.name,title")])]) := by
  have hkeys : AreKeys ["-author.name", "title"] := by decide +kernel
  have hcommas : ∀ key ∈ ["-author.name", "title"], ',' ∉ key.toList := by decide +kernel
  have hforms := (readFields_forms hkeys).2.2 hcommas
  refine ⟨hkeys, hcommas, rfl, ?_, ?_⟩
  · exact (hforms [] [("limit", .string "2")]).1 "sort" (by decide)
  · exact (hforms [] []).2 "max" [] []

/-- A key that leads back from the author to the titles of all articles of the author orders rows,
and is none in a text: it is read as two. -/
theorem readFields_forms_followed :
    AreKeys ["author.$FOLLOW(articles, author).title"] ∧
      ofJson (.object [("sort", .ofTexts ["author.$FOLLOW(articles, author).title"])]) =
        .ok { sort := ["author.$FOLLOW(articles, author).title"] } ∧
      ofJson (.object [("sort", .ofJoined ["author.$FOLLOW(articles, author).title"])]) =
        .ok { sort := ["author.$FOLLOW(articles", "author).title"] } ∧
      ((Compiler.blog .postgres).compile "articles"
        { sort := ["author.$FOLLOW(articles, author).title"] }).isOk = true ∧
      ((Compiler.blog .postgres).compile "articles"
        { sort := ["author.$FOLLOW(articles", "author).title"] }).isOk = false :=
  ⟨by decide +kernel, rfl, rfl, by decide +kernel, by decide +kernel⟩

end Request

end JsonSql
