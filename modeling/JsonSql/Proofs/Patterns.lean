import JsonSql.Proofs.Admission
import JsonSql.Proofs.Comparisons
import JsonSql.Proofs.Selection
import JsonSql.Statement.Search
import Mathlib.Data.List.Infix

set_option autoImplicit false

/-!
# Texts and patterns

What `LIKE` finds, on an engine that reads `%` in a pattern as any run of characters and `_` as any
one.  A text is looked for by a pattern that holds it as it is written, so every text that holds it
is found (`Placement.like_pattern_of_holds`).  Where neither of these two characters occurs in it,
nothing else is (`found_literally`); where one does, some text is found that does not hold it
(`Placement.exists_like_pattern`).
-/

namespace JsonSql

open JsonSql.Sql

/-! ## Patterns -/

namespace Text

/-- Characters match a pattern in which `%` stands for any run of characters and `_` for any one. -/
def likeChars : (pattern : List Char) → List Char → Bool
  | [], cs => cs.isEmpty
  | p :: ps, cs =>
    if p = '%' then cs.tails.any (likeChars ps)
    else cs.head?.any (fun c => p = '_' || p = c) && likeChars ps cs.tail

/-- A text matches a pattern. -/
def like (pattern s : String) : Bool := likeChars pattern.toList s.toList

/-- A character that stands for itself in patterns. -/
def isPlain (c : Char) : Bool := c ≠ '%' && c ≠ '_'

/-- A text of which every character stands for itself in patterns. -/
def isLiteral (s : String) : Bool := s.toList.all isPlain

section

variable {v p cs : List Char} {c : Char}

theorem likeChars_run : likeChars ('%' :: p) cs = true ↔
    ∃ before rest, cs = before ++ rest ∧ likeChars p rest = true := by
  rw [likeChars, if_pos rfl, List.any_eq_true]
  constructor
  · rintro ⟨rest, hrest, hlike⟩
    obtain ⟨before, rfl⟩ := (List.mem_tails _ _).mp hrest
    exact ⟨before, rest, rfl, hlike⟩
  · rintro ⟨before, rest, rfl, hlike⟩
    exact ⟨rest, (List.mem_tails _ _).mpr (List.suffix_append _ _), hlike⟩

theorem likeChars_one (hp : c ≠ '%') : likeChars (c :: p) cs = true ↔
    ∃ d rest, cs = d :: rest ∧ (c = '_' ∨ c = d) ∧ likeChars p rest = true := by
  rw [likeChars, if_neg hp]
  cases cs with
  | nil => simp
  | cons d rest => simp

/-- Any run matches the pattern of any run. -/
theorem likeChars_any (cs : List Char) : likeChars ['%'] cs = true :=
  likeChars_run.mpr ⟨cs, [], (List.append_nil cs).symm, rfl⟩

/-- Every text matches itself as a pattern. -/
theorem likeChars_self (v : List Char) : likeChars v v = true := by
  induction v with
  | nil => rfl
  | cons c v ih =>
    by_cases hc : c = '%'
    · rw [hc, likeChars_run]
      exact ⟨['%'], v, rfl, ih⟩
    · rw [likeChars_one hc]
      exact ⟨c, v, rfl, .inr rfl, ih⟩

/-- Two texts one after the other match their patterns one after the other. -/
theorem likeChars_append {q ds : List Char} (h : likeChars p cs = true)
    (hq : likeChars q ds = true) : likeChars (p ++ q) (cs ++ ds) = true := by
  induction p generalizing cs with
  | nil =>
    rw [likeChars, List.isEmpty_iff] at h
    rw [h]
    exact hq
  | cons c p ih =>
    by_cases hc : c = '%'
    · rw [hc, likeChars_run] at h
      obtain ⟨before, rest, rfl, hrest⟩ := h
      rw [hc, List.cons_append, likeChars_run]
      exact ⟨before, rest ++ ds, List.append_assoc _ _ _, ih hrest⟩
    · rw [likeChars_one hc] at h
      obtain ⟨d, rest, rfl, hsame, hrest⟩ := h
      rw [List.cons_append, likeChars_one hc]
      exact ⟨d, rest ++ ds, rfl, hsame, ih hrest⟩

/-- Characters that stand for themselves match nothing else. -/
theorem likeChars_plain (hv : v.all isPlain = true) : likeChars (v ++ p) cs = true ↔
    ∃ rest, cs = v ++ rest ∧ likeChars p rest = true := by
  constructor
  · intro h
    induction v generalizing cs with
    | nil => exact ⟨cs, rfl, h⟩
    | cons c v ih =>
      rw [List.all_cons, Bool.and_eq_true, isPlain, Bool.and_eq_true, decide_eq_true_eq,
        decide_eq_true_eq] at hv
      obtain ⟨⟨hrun, hone⟩, hv⟩ := hv
      rw [List.cons_append, likeChars_one hrun] at h
      obtain ⟨d, rest, rfl, hsame, hlike⟩ := h
      obtain rfl := hsame.resolve_left hone
      obtain ⟨rest, rfl, hrest⟩ := ih hv hlike
      exact ⟨rest, rfl, hrest⟩
  · rintro ⟨rest, rfl, hlike⟩
    exact likeChars_append (likeChars_self v) hlike

theorem likeChars_plain_self (hv : v.all isPlain = true) : likeChars v cs = true ↔ cs = v := by
  have hplain : likeChars (v ++ []) cs = true ↔ ∃ rest, cs = v ++ rest ∧ likeChars [] rest = true :=
    likeChars_plain hv
  rw [List.append_nil] at hplain
  rw [hplain]
  constructor
  · rintro ⟨rest, rfl, hempty⟩
    rw [likeChars, List.isEmpty_iff] at hempty
    rw [hempty, List.append_nil]
  · rintro rfl
    exact ⟨[], (List.append_nil _).symm, rfl⟩

end

/-! ### Lower case -/

/-- The code points that characters are mapped to in lower case lie above `%` and `_`. -/
theorem lower_above :
    (CaseTable.lower.all fun (first, _, _, shift) => '_'.toNat < first + shift) = true ∧
      (CaseTable.lowerSeveral.all fun (_, images) =>
        images.all fun n => isPlain (Char.ofNat n)) = true := by
  decide +kernel

theorem isPlain_ofNat {n : Nat} (h : '_'.toNat < n) : isPlain (Char.ofNat n) = true := by
  have hne {c : Char} (hc : c.toNat ≤ '_'.toNat) (hpos : 0 < c.toNat) : Char.ofNat n ≠ c := by
    rintro rfl
    by_cases hvalid : n.isValidChar
    · rw [Char.ofNat, dif_pos hvalid] at hc
      change n ≤ _ at hc
      omega
    · rw [Char.ofNat, dif_neg hvalid] at hpos
      cases hpos
  rw [isPlain, Bool.and_eq_true, decide_eq_true_eq, decide_eq_true_eq]
  exact ⟨hne (by decide) (by decide), hne (by decide) (by decide)⟩

theorem isPlain_of_mem_lowerChar {c d : Char} (hc : isPlain c = true) (hd : d ∈ lowerChar c) :
    isPlain d = true := by
  obtain ⟨hsingle, hseveral⟩ := lower_above
  rw [List.all_eq_true] at hsingle hseveral
  unfold lowerChar mapChar at hd
  split at hd
  · next images hfound =>
    obtain ⟨n, hn, rfl⟩ := List.mem_map.mp hd
    obtain ⟨first, rest, hsplit, -⟩ := List.lookup_eq_some_iff.mp hfound
    have hmem : (c.toNat, images) ∈ CaseTable.lowerSeveral :=
      hsplit ▸ List.mem_append_right _ List.mem_cons_self
    exact List.all_eq_true.mp (hseveral _ hmem) n hn
  · split at hd
    · next image hfound =>
      rw [List.mem_singleton.mp hd]
      obtain ⟨⟨first, last, step, shift⟩, hrange, himage⟩ := List.exists_of_findSome?_eq_some hfound
      have habove := of_decide_eq_true (hsingle _ hrange)
      dsimp only at himage habove
      split at himage
      · next hin =>
        simp only [Bool.and_eq_true, decide_eq_true_eq] at hin
        have himage := Option.some.inj himage
        refine isPlain_ofNat ?_
        omega
      · cases himage
    · rw [List.mem_singleton.mp hd]
      exact hc

theorem all_isPlain_lowerChars {before cs : List Char} (h : cs.all isPlain = true) :
    (lowerChars before cs).all isPlain = true := by
  induction cs generalizing before with
  | nil => rfl
  | cons c cs ih =>
    rw [List.all_cons, Bool.and_eq_true] at h
    rw [lowerChars, List.all_append, ih h.2, Bool.and_true]
    split
    · split <;> decide
    · exact List.all_eq_true.mpr fun d hd => isPlain_of_mem_lowerChar h.1 hd

/-- A literal text in lower case is literal. -/
theorem isLiteral_toLower {s : String} (h : isLiteral s = true) : isLiteral (toLower s) = true := by
  rw [isLiteral, toLower, String.toList_ofList]
  exact all_isPlain_lowerChars h

end Text

/-! ## Placements -/

namespace Placement

/-- A text holds another one at a place. -/
def Holds (place : Placement) (v s : String) : Prop :=
  match place with
  | anywhere => v.toList <:+: s.toList
  | atStart => v.toList <+: s.toList
  | atEnd => v.toList <:+ s.toList

instance (place : Placement) (v s : String) : Decidable (place.Holds v s) :=
  match place with
  | anywhere => inferInstanceAs (Decidable (v.toList <:+: s.toList))
  | atStart => inferInstanceAs (Decidable (v.toList <+: s.toList))
  | atEnd => inferInstanceAs (Decidable (v.toList <:+ s.toList))

theorem toList_pattern (place : Placement) (v : String) :
    (place.pattern v).toList = match place with
      | anywhere => '%' :: (v.toList ++ ['%'])
      | atStart => v.toList ++ ['%']
      | atEnd => '%' :: v.toList := by
  cases place <;> simp [pattern]

/-- What matches a text as a pattern is found by the pattern of the text, at its place in a text. -/
theorem like_pattern_of_like {place : Placement} {v : String} {cs : List Char}
    (h : Text.likeChars v.toList cs = true) {before rest : List Char}
    (hbefore : place = .atStart → before = []) (hrest : place = .atEnd → rest = []) :
    Text.like (place.pattern v) (.ofList (before ++ cs ++ rest)) = true := by
  have hrun : Text.likeChars (v.toList ++ ['%']) (cs ++ rest) = true :=
    Text.likeChars_append h (Text.likeChars_any rest)
  rw [Text.like, toList_pattern, String.toList_ofList, List.append_assoc]
  cases place with
  | anywhere => exact Text.likeChars_run.mpr ⟨before, cs ++ rest, rfl, hrun⟩
  | atStart =>
    rw [hbefore rfl]
    exact hrun
  | atEnd =>
    rw [hrest rfl, List.append_nil]
    exact Text.likeChars_run.mpr ⟨before, cs, rfl, h⟩

/-- Every text that holds another one is found by its pattern. -/
theorem like_pattern_of_holds {place : Placement} {v s : String} (h : place.Holds v s) :
    Text.like (place.pattern v) s = true := by
  have hself := Text.likeChars_self v.toList
  have hsame {before rest : List Char} (hs : before ++ v.toList ++ rest = s.toList) :
      String.ofList (before ++ v.toList ++ rest) = s := by
    rw [hs, String.ofList_toList]
  cases place with
  | anywhere =>
    obtain ⟨before, rest, hs⟩ := h
    rw [← hsame hs]
    exact like_pattern_of_like hself nofun nofun
  | atStart =>
    obtain ⟨rest, hs⟩ := h
    have hstart : [] ++ v.toList ++ rest = s.toList := hs
    rw [← hsame hstart]
    exact like_pattern_of_like hself (fun _ => rfl) nofun
  | atEnd =>
    obtain ⟨before, hs⟩ := h
    rw [← List.append_nil (before ++ v.toList)] at hs
    rw [← hsame hs]
    exact like_pattern_of_like hself nofun fun _ => rfl

/-- A literal text is found in the texts that hold it, and in no others. -/
theorem like_pattern_iff {place : Placement} {v s : String} (hv : Text.isLiteral v = true) :
    Text.like (place.pattern v) s = true ↔ place.Holds v s := by
  refine ⟨fun h => ?_, like_pattern_of_holds⟩
  rw [Text.like, toList_pattern] at h
  cases place with
  | anywhere =>
    obtain ⟨before, found, hs, h⟩ := Text.likeChars_run.mp h
    obtain ⟨rest, rfl, -⟩ := (Text.likeChars_plain hv).mp h
    exact ⟨before, rest, by rw [hs, List.append_assoc]⟩
  | atStart =>
    obtain ⟨rest, hs, -⟩ := (Text.likeChars_plain hv).mp h
    exact ⟨rest, hs.symm⟩
  | atEnd =>
    obtain ⟨before, found, hs, h⟩ := Text.likeChars_run.mp h
    rw [(Text.likeChars_plain_self hv).mp h] at hs
    exact ⟨before, hs.symm⟩

/-- A text that holds another one is not shorter, and is the other one if it is as long. -/
theorem Holds.length_le {place : Placement} {v s : String} (h : place.Holds v s) :
    v.toList.length ≤ s.toList.length ∧
      (v.toList.length = s.toList.length → v.toList = s.toList) := by
  cases place with
  | anywhere => exact ⟨List.IsInfix.length_le h, fun hlength => List.IsInfix.eq_of_length h hlength⟩
  | atStart =>
    exact ⟨List.IsPrefix.length_le h, fun hlength => List.IsPrefix.eq_of_length h hlength⟩
  | atEnd => exact ⟨List.IsSuffix.length_le h, fun hlength => List.IsSuffix.eq_of_length h hlength⟩

/-- A text that is not literal is found in some text that does not hold it. -/
theorem exists_like_pattern (place : Placement) {v : String} (hv : Text.isLiteral v = false) :
    ∃ s, Text.like (place.pattern v) s = true ∧ ¬place.Holds v s := by
  obtain ⟨w, hw, hspecial⟩ := List.all_eq_false.mp hv
  obtain ⟨before, rest, hsplit⟩ := List.append_of_mem hw
  -- what matches the text by itself matches its pattern
  have hlike {cs : List Char} (h : Text.likeChars v.toList cs = true) :
      Text.like (place.pattern v) (.ofList cs) = true := by
    have hfound : Text.like (place.pattern v) (.ofList ([] ++ cs ++ [])) = true :=
      like_pattern_of_like h (fun _ => rfl) fun _ => rfl
    rwa [List.nil_append, List.append_nil] at hfound
  by_cases hrun : w = '%'
  · refine ⟨.ofList (before ++ rest), hlike ?_, fun hholds => ?_⟩
    · rw [hsplit]
      refine Text.likeChars_append (Text.likeChars_self before) ?_
      rw [hrun]
      exact Text.likeChars_run.mpr ⟨[], rest, rfl, Text.likeChars_self rest⟩
    · have hlength := hholds.length_le.1
      rw [hsplit, String.toList_ofList] at hlength
      simp only [List.length_append, List.length_cons] at hlength
      omega
  · have hone : w = '_' := by
      by_contra hother
      exact hspecial (by simp [Text.isPlain, hrun, hother])
    refine ⟨.ofList (before ++ 'x' :: rest), hlike ?_, fun hholds => ?_⟩
    · rw [hsplit]
      refine Text.likeChars_append (Text.likeChars_self before) ?_
      rw [Text.likeChars_one hrun]
      exact ⟨'x', rest, rfl, .inl hone, Text.likeChars_self rest⟩
    · have hsame := hholds.length_le.2 (by rw [hsplit, String.toList_ofList]; simp)
      rw [hsplit, String.toList_ofList] at hsame
      have hletter := (List.cons.inj (List.append_cancel_left hsame)).1
      rw [hone] at hletter
      exact absurd hletter (by decide)

end Placement

/-! ## Predicates that look for texts -/

/-- A text in lower case, if case does not count. -/
def Text.folded (ignoreCase : Bool) (s : String) : String := if ignoreCase then toLower s else s

theorem Text.isLiteral_folded {ignoreCase : Bool} {s : String} (h : isLiteral s = true) :
    isLiteral (folded ignoreCase s) = true := by
  cases ignoreCase with
  | false => exact h
  | true => exact isLiteral_toLower h

/-- An engine that matches texts with patterns and knows their lower case. -/
structure Sql.Engine.ReadsTexts (E : Engine) : Prop where
  like : ∀ s pattern, E.compare E.like (E.text s) (E.text pattern) = .ofBool (Text.like pattern s)
  lower : ∀ s, E.call "LOWER" [E.text s] = E.text (Text.toLower s)

theorem Sql.Engine.ReadsTexts.folded {E : Engine} (h : E.ReadsTexts) (ignoreCase : Bool)
    (s : String) : E.folded ignoreCase (E.text s) = E.text (Text.folded ignoreCase s) := by
  cases ignoreCase with
  | false => rfl
  | true => exact h.lower s

/-- An engine whose values are literals and which matches texts with patterns. -/
def Engine.texts : Engine :=
  { Engine.literals with like, call }
where
  /-- A text matches a pattern. -/
  like : Literal → Literal → Bool
    | .string s, .string pattern => Text.like pattern s
    | _, _ => false
  /-- The lower case of a text. -/
  call : String → List (Option Literal) → Option Literal
    | "LOWER", [some (.string s)] => some (.string (Text.toLower s))
    | _, _ => none

theorem readsTexts_texts : Engine.texts.ReadsTexts where
  like _ _ := rfl
  lower _ := rfl

/-- A condition matches the texts of a column with the pattern of a text at a place. -/
def Sql.Expr.Matches (E : Engine) (e column : Expr) (place : Placement) (ignoreCase negated : Bool)
    (v : String) : Prop :=
  ∀ (db : Database E) (tables : Tables E) (s : String), column.value db [] tables = E.text s →
    e.truthOn db tables =
      (Truth.ofBool (Text.like (place.pattern (Text.folded ignoreCase v))
        (Text.folded ignoreCase s))).negatedIf negated

/-- A condition finds the texts of a column that hold a text at a place, and if the text is literal
no others.  If it is not, and case counts, the condition finds some text that does not hold it. -/
structure Sql.Expr.Finds (E : Engine) (e column : Expr) (place : Placement)
    (ignoreCase negated : Bool) (v : String) : Prop where
  of_holds : ∀ (db : Database E) (tables : Tables E) (s : String),
    column.value db [] tables = E.text s →
    place.Holds (Text.folded ignoreCase v) (Text.folded ignoreCase s) →
    e.truthOn db tables = Truth.yes.negatedIf negated
  literally : Text.isLiteral v = true → ∀ (db : Database E) (tables : Tables E) (s : String),
    column.value db [] tables = E.text s →
    e.truthOn db tables =
      (Truth.ofBool (place.Holds (Text.folded ignoreCase v)
        (Text.folded ignoreCase s))).negatedIf negated
  more : Text.isLiteral v = false → ignoreCase = false → ∃ s, ¬place.Holds v s ∧
    ∀ (db : Database E) (tables : Tables E), column.value db [] tables = E.text s →
      e.truthOn db tables = Truth.yes.negatedIf negated

theorem Sql.Expr.Matches.finds {E : Engine} {e column : Expr} {place : Placement}
    {ignoreCase negated : Bool} {v : String} (h : e.Matches E column place ignoreCase negated v) :
    e.Finds E column place ignoreCase negated v where
  of_holds db tables s hs hholds := by
    rw [h db tables s hs, Placement.like_pattern_of_holds hholds]
    rfl
  literally hv db tables s hs := by
    rw [h db tables s hs]
    congr 2
    rw [Bool.eq_iff_iff, decide_eq_true_eq]
    exact Placement.like_pattern_iff (Text.isLiteral_folded hv)
  more hv hcase := by
    subst hcase
    obtain ⟨s, hlike, hholds⟩ := place.exists_like_pattern hv
    refine ⟨s, hholds, fun db tables hs => ?_⟩
    rw [h db tables s hs]
    exact congrArg (fun found => (Truth.ofBool found).negatedIf negated) hlike

/-- The predicate of an operator that looks for a text. -/
theorem Operator.matches_compareOne {E : Engine} (hreads : E.ReadsTexts) (place : Placement)
    (ignoreCase negated : Bool) (column : Expr) (x : Literal) :
    ((holds place ignoreCase negated).compareOne column x).Matches E column place ignoreCase negated
      x.patternText := by
  intro db tables s hs
  have harity : (holds place ignoreCase negated).arity = .single := rfl
  have htruth : some (((holds place ignoreCase negated).compareOne column x).truthOn db tables) =
      (holds place ignoreCase negated).truth? E .postgres (column.value db [] tables) [x] true :=
    truthOn_compareOne harity .postgres column [x] true
  rw [hs] at htruth
  refine (Option.some.inj htruth).trans ?_
  rw [hreads.folded]
  exact congrArg (Truth.negatedIf negated) (hreads.like _ _)

/-- Texts are looked for among values that stand for themselves. -/
theorem Operator.valueKind_of_holds {type : FieldType} {place : Placement}
    {ignoreCase negated : Bool} (h : (holds place ignoreCase negated).isAllowedFor type = true) :
    type.valueKind = .plain := by
  cases type <;> first | rfl | (cases place <;> cases ignoreCase <;> cases negated <;> cases h)

/-- The literal of a value that is not null, for an operator that takes one. -/
theorem Sql.Literal.list_single {d : Dialect} {kind : ValueKind} {value : Json}
    (h : value.isNull = false) : Literal.list d kind .single value = [.ofJson d kind value] := by
  cases value with
  | null => cases h
  | _ => rfl

/-- The predicate of a search in a text field. -/
theorem searchPredicate?_of_isText {collection term : String} {f : Field}
    (halias : f.isAlias = false) (hconcealed : f.isConcealed = false)
    (htext : f.type.isText = true) :
    searchPredicate? collection term f =
      some ((Operator.holds .anywhere true false).compareOne (.of collection f.name)
        (.string term)) := by
  rw [searchPredicate?, halias, hconcealed, htext]
  rfl

/-- The predicates of the operators that look for a text in a column, and that of a search in a text
field, find the texts that hold it, and if it is free of `%` and `_` no others. -/
theorem found_literally {E : Engine} (hreads : E.ReadsTexts) (c : Context) :
    (∀ {hops : Hops} {collection : String} {path : List String} {column : Column} {k k' : Nat},
      (c.column hops collection path).Gives k column k' →
      ∀ (place : Placement) (ignoreCase negated : Bool) (value : Json), value.isNull = false →
        Context.checkOperator column (.holds place ignoreCase negated) = .ok () →
        ∃ e, c.compare? column ⟨.holds place ignoreCase negated, some value⟩ = .ok (some e) ∧
          e.Finds E column.expr place ignoreCase negated
            (Literal.ofJson c.dialect .plain value).patternText) ∧
      ∀ (collection term : String) (f : Field), f.isAlias = false → f.isConcealed = false →
        f.type.isText = true →
        ∃ e, searchPredicate? collection (Text.trim term) f = some e ∧
          e.Finds E (.of collection f.name) .anywhere true false (Text.trim term) := by
  refine ⟨fun {hops collection path column k k'} hcolumn place ignoreCase negated value hvalue
    hadmitted => ?_, fun collection term f halias hconcealed htext => ?_⟩
  · have hkind : column.valueKind = .plain := (Context.valueKind_of_column hcolumn).trans
      (Operator.valueKind_of_holds (Context.isAllowedFor_of_checkOperator hadmitted))
    have hcompare : c.compare? column ⟨.holds place ignoreCase negated, some value⟩ =
        .ok (some ((Operator.holds place ignoreCase negated).compareOne column.expr
          (.ofJson c.dialect .plain value))) := by
      simp only [Context.compare?, hadmitted, hkind]
      change Except.ok ((Literal.list c.dialect .plain .single value).head?.map _) = _
      rw [Literal.list_single hvalue]
      rfl
    exact ⟨_, hcompare,
      (Operator.matches_compareOne hreads place ignoreCase negated column.expr _).finds⟩
  · exact ⟨_, searchPredicate?_of_isText halias hconcealed htext,
      (Operator.matches_compareOne hreads .anywhere true false _ (.string (Text.trim term))).finds⟩

theorem found_literally_blog :
    (∃ e, (Schema.blog.context {} Alias.sequential).compare?
        ⟨.of "articles" "title", "title", .string, false, false⟩
        ⟨.holds .atStart true true, some (.string "TEA")⟩ = .ok (some e) ∧
      ∀ (db : Database Engine.texts) (tables : Tables Engine.texts),
        rowOf tables "articles" "title" = Engine.texts.text "Teapots" →
        e.truthOn db tables = .no) ∧
    ∃ e, searchPredicate? "articles" "tea" ⟨"title", .string, [], none⟩ = some e ∧
      e.Finds Engine.texts (.of "articles" "title") .anywhere true false "tea" := by
  obtain ⟨hcompared, hsearched⟩ :=
    found_literally readsTexts_texts (Schema.blog.context {} Alias.sequential)
  have hcolumn : ((Schema.blog.context {} Alias.sequential).column {} "articles" ["title"]).Gives 0
      ⟨.of "articles" "title", "title", .string, false, false⟩ 0 := rfl
  obtain ⟨e, he, hfinds⟩ := hcompared hcolumn .atStart true true (.string "TEA") rfl rfl
  refine ⟨⟨e, he, fun db tables htext => ?_⟩, ?_⟩
  · rw [← value_of db] at htext
    exact hfinds.of_holds db tables "Teapots" htext (by decide +kernel)
  · have htrim : Text.trim "tea" = "tea" := by decide +kernel
    exact htrim ▸ hsearched "articles" "tea" ⟨"title", .string, [], none⟩ rfl rfl rfl

/-- An article of which the title holds no percent sign. -/
def Database.numbered : Database Engine.texts
  | "articles" =>
    [fun column => ([("id", .int 1), ("title", .string "505")].lookup column : Option Literal)]
  | _ => []

/-- Articles of which the title holds a text, or does not. -/
def Request.holding (negated : Bool) (v : String) : Request where
  filter := some (.of (.field "title"
    (.compare [⟨.holds .anywhere false negated, some (.string v)⟩])))

/-- A percent sign is not looked for: the article is found by a text that its title does not hold,
it is left out where it should not hold it, and a search for the text finds it as well. -/
theorem found_unheld_blog :
    Engine.texts.ReadsTexts ∧ ¬Placement.anywhere.Holds "50%" "505" ∧
      (∀ row ∈ Database.numbered "articles", row "title" = Engine.texts.text "505") ∧
      ∃ q q' searched,
        (Schema.blog.compiler {} fun _ => 0).compile "articles" (.holding false "50%") = .ok q ∧
        (Schema.blog.compiler {} fun _ => 0).compile "articles" (.holding true "50%") = .ok q' ∧
        (Schema.blog.compiler {} fun _ => 0).compile "articles" { search := some "50%" } =
          .ok searched ∧
        (q.output Database.numbered []).length = 1 ∧ q'.output Database.numbered [] = [] ∧
        (searched.output Database.numbered []).length = 1 := by
  obtain ⟨q, hq, hfound⟩ : ∃ q,
      (Schema.blog.compiler {} fun _ => 0).compile "articles" (.holding false "50%") = .ok q ∧
        (q.output Database.numbered []).length = 1 :=
    Compiler.exists_compile_with (by decide +kernel)
  obtain ⟨q', hq', hleft⟩ : ∃ q,
      (Schema.blog.compiler {} fun _ => 0).compile "articles" (.holding true "50%") = .ok q ∧
        (q.output Database.numbered []).length = 0 :=
    Compiler.exists_compile_with (by decide +kernel)
  obtain ⟨searched, hsearched, hfound'⟩ : ∃ q,
      (Schema.blog.compiler {} fun _ => 0).compile "articles" { search := some "50%" } = .ok q ∧
        (q.output Database.numbered []).length = 1 :=
    Compiler.exists_compile_with (by decide +kernel)
  refine ⟨readsTexts_texts, by decide +kernel, fun row hrow => ?_, q, q', searched, hq, hq',
    hsearched, hfound, List.length_eq_zero_iff.mp hleft, hfound'⟩
  rw [List.mem_singleton.mp hrow]
  rfl

end JsonSql
