import Mathlib.Data.List.Forall2
import JsonSql.Proofs.Run
import JsonSql.Proofs.ShorterTexts
import JsonSql.Request.FilterReader

set_option autoImplicit false

/-!
# The grammar of filters

Which JSON values are filters, and which filter each of them is (`DenotesFilter`).  The reader takes
these and no others, and gives the filter that they denote: a clause for each key, in the order of
the keys (`ofJson_grammar`).  A key that it does not know as an operator starts with an underscore
and stands where keys are read (`Json.ReadsKey`).
-/

namespace JsonSql

open Filter (isMarked isOperatorKey reservedKeys comparedValue)

/-! ## Values that are filters -/

/-- A value other than an object. -/
def Json.IsPlain : Json → Prop
  | .object _ => False
  | _ => True

/-- An operator and its value, under the key of the operator. -/
def IsComparison (member : String × Json) (comparison : Comparison) : Prop :=
  comparison.operator.key = member.1 ∧ comparison.value = comparedValue member.2

mutual
/-- A value denotes a filter: an object, or a text that holds one. -/
inductive DenotesFilter : Json → Filter → Prop
  | object {members : List (String × Json)} {clauses : List Clause} :
      DenoteClauses members clauses → DenotesFilter (.object members) ⟨clauses⟩
  | text {s : String} {members : List (String × Json)} {clauses : List Clause} :
      Json.read? s = some (.object members) → DenoteClauses members clauses →
      DenotesFilter (.string s) ⟨clauses⟩

/-- The members of an object denote a clause each, in their order. -/
inductive DenoteClauses : List (String × Json) → List Clause → Prop
  | nil : DenoteClauses [] []
  | cons {key : String} {value : Json} {clause : Clause} {members : List (String × Json)}
      {clauses : List Clause} : DenotesClause key value clause → DenoteClauses members clauses →
      DenoteClauses ((key, value) :: members) (clause :: clauses)

/-- A key and its value denote a clause: a group of filters, or what is asked of a field. -/
inductive DenotesClause : String → Json → Clause → Prop
  | all {items : List Json} {filters : List Filter} :
      DenoteFilters items filters → DenotesClause "_and" (.array items) (.all filters)
  | any {items : List Json} {filters : List Filter} :
      DenoteFilters items filters → DenotesClause "_or" (.array items) (.any filters)
  | field {key : String} {value : Json} {condition : FieldCondition} :
      isMarked key = false → DenotesCondition value condition →
      DenotesClause key value (.field key condition)

/-- Values denote a filter each. -/
inductive DenoteFilters : List Json → List Filter → Prop
  | nil : DenoteFilters [] []
  | cons {item : Json} {f : Filter} {items : List Json} {filters : List Filter} :
      DenotesFilter item f → DenoteFilters items filters → DenoteFilters (item :: items) (f :: filters)

/-- A value denotes what is asked of a field: a value to equal, operators and their values, a
quantified filter, or the clauses on the related row. -/
inductive DenotesCondition : Json → FieldCondition → Prop
  | equal {value : Json} :
      value.IsPlain → DenotesCondition value (.compare [⟨.equal false false, comparedValue value⟩])
  | compare {members : List (String × Json)} {comparisons : List Comparison} :
      members ≠ [] → List.Forall₂ IsComparison members comparisons →
      DenotesCondition (.object members) (.compare comparisons)
  | quantified {quantifier : Quantifier} {value : Json} {f : Filter} :
      DenotesFilter value f →
      DenotesCondition (.object [(quantifier.key, value)]) (.quantified quantifier f)
  | nested {members : List (String × Json)} {clauses : List Clause} :
      DenoteClauses members clauses → DenotesCondition (.object members) (.nested ⟨clauses⟩)
end

/-- A key stands where keys are read: in an object that is read as a filter, under a field, or in a
filter below. -/
inductive Json.ReadsKey (key : String) : Json → Prop
  | here {members : List (String × Json)} {value : Json} :
      (key, value) ∈ members → ReadsKey key (.object members)
  | group {members : List (String × Json)} {name : String} {items : List Json} {item : Json} :
      (name, .array items) ∈ members → name = "_and" ∨ name = "_or" → item ∈ items →
      ReadsKey key item → ReadsKey key (.object members)
  | field {members inner : List (String × Json)} {name : String} :
      (name, .object inner) ∈ members → isMarked name = false → ReadsKey key (.object inner) →
      ReadsKey key (.object members)
  | quantified {members : List (String × Json)} {quantifier : Quantifier} {value : Json} :
      (quantifier.key, value) ∈ members → ReadsKey key value → ReadsKey key (.object members)
  | text {s : String} {members : List (String × Json)} :
      Json.read? s = some (.object members) → ReadsKey key (.object members) →
      ReadsKey key (.string s)

/-- A key that names no operator though it starts with an underscore, and is no reserved key. -/
def IsUnknownKey (key : String) : Prop :=
  isMarked key = true ∧ key ∉ reservedKeys ∧ ∀ operator : Operator, operator.key ≠ key

/-! ## Keys -/

theorem Operator.key_of_ofKey? {key : String} {operator : Operator}
    (h : Operator.ofKey? key = some operator) : operator.key = key := by
  simpa using List.find?_some h

theorem Quantifier.key_of_ofKey? {key : String} {quantifier : Quantifier}
    (h : Quantifier.ofKey? key = .some quantifier) : quantifier.key = key := by
  simpa using List.find?_some h

theorem Quantifier.ofKey?_key (quantifier : Quantifier) :
    Quantifier.ofKey? quantifier.key = .some quantifier := by
  cases quantifier <;> decide

theorem Operator.key_ne_of_ofKey? {key : String} (h : Operator.ofKey? key = none)
    (operator : Operator) : operator.key ≠ key := by
  intro hkey
  rw [← hkey, Operator.ofKey?_key] at h
  cases h

/-- The key of an operator stands in the place of an operator. -/
theorem isOperatorKey_key (operator : Operator) : isOperatorKey operator.key = true := by
  have table : Operator.all.all (fun operator => isOperatorKey operator.key) = true := by
    decide +kernel
  exact List.all_eq_true.mp table operator (Operator.mem_all operator)

/-- No field has the key of a quantifier. -/
theorem isMarked_key (quantifier : Quantifier) : isMarked quantifier.key = true := by
  cases quantifier <;> decide

theorem isOperatorKey_eq_false {key : String} (h : isMarked key = false) :
    isOperatorKey key = false := by
  rw [isOperatorKey, h, Bool.false_and]

theorem quantifier_ofKey?_eq_none {key : String} (h : isMarked key = false) :
    Quantifier.ofKey? key = none := by
  cases hkey : Quantifier.ofKey? key with
  | none => rfl
  | some quantifier =>
    rw [← Quantifier.key_of_ofKey? hkey, isMarked_key] at h
    cases h

/-- A key without an underscore is the key of a field. -/
theorem keyFault?_eq_none {key : String} (h : isMarked key = false) :
    Filter.keyFault? key = none := by
  simp [Filter.keyFault?, quantifier_ofKey?_eq_none h, h]

/-- The keys of groups stand in the place of no operator and no quantifier. -/
theorem group_keys : (isOperatorKey "_and" = false ∧ Quantifier.ofKey? "_and" = none) ∧
    (isOperatorKey "_or" = false ∧ Quantifier.ofKey? "_or" = none) := by
  decide

/-- The keys of clauses are those of groups and fields. -/
theorem key_of_denoteClauses {members : List (String × Json)} {clauses : List Clause}
    (h : DenoteClauses members clauses) : ∀ member ∈ members,
      isOperatorKey member.1 = false ∧ Quantifier.ofKey? member.1 = none := by
  induction members generalizing clauses with
  | nil => nofun
  | cons member rest ih =>
    cases h with
    | cons hfirst hrest =>
      intro other hmem
      rcases List.mem_cons.mp hmem with rfl | hmem
      · cases hfirst with
        | all => exact group_keys.1
        | any => exact group_keys.2
        | field hunmarked =>
          exact ⟨isOperatorKey_eq_false hunmarked, quantifier_ofKey?_eq_none hunmarked⟩
      · exact ih hrest other hmem

/-- An object of operators and their values. -/
theorem isComparison_of_comparisons {members : List (String × Json)}
    {comparisons : List Comparison} (hsome : members ≠ [])
    (h : List.Forall₂ IsComparison members comparisons) : Filter.isComparison members = true := by
  have hall : ∀ member ∈ members, isOperatorKey member.1 = true := by
    clear hsome
    induction h with
    | nil => nofun
    | cons hfirst _ ih =>
      intro member hmem
      rcases List.mem_cons.mp hmem with rfl | hrest
      · rw [← hfirst.1]
        exact isOperatorKey_key _
      · exact ih member hrest
  simpa [Filter.isComparison, hsome] using hall

/-- A quantifier does not stand in the place of an operator. -/
theorem isOperatorKey_quantifier (quantifier : Quantifier) :
    isOperatorKey quantifier.key = false := by
  cases quantifier <;> decide

/-! ## What is denoted is read -/

namespace Filter

variable {readText readText' : String → Except QueryError Filter}

/-- What is read from a member of an object. -/
def readClause (readText : String → Except QueryError Filter) (key : String) (value : Json) :
    Except QueryError Clause :=
  if key = "_and" then .all <$> readGroup readText key value
  else if key = "_or" then .any <$> readGroup readText key value
  else match keyFault? key with
    | some fault => .error fault
    | none => .field key <$> readCondition readText value

theorem readClauses_cons (key : String) (value : Json) (rest : List (String × Json)) :
    readClauses readText ((key, value) :: rest) = do
      let clause ← readClause readText key value
      let clauses ← readClauses readText rest
      return clause :: clauses := by
  rw [readClauses, readClause]
  split
  · rfl
  · split
    · rfl
    · cases keyFault? key <;> rfl

mutual
/-- A value is read the same by readers of texts that agree on the texts in it. -/
theorem read_congr {json : Json} (h : ∀ text, json.HasText text → readText text = readText' text) :
    read readText json = read readText' json := by
  cases json with
  | object members =>
    rw [read, read, readClauses_congr fun key value hmem text htext => h text (.member hmem htext)]
  | string s =>
    rw [read, read]
    exact h s .string
  | null | bool _ | number _ | array _ => rw [read, read] <;> nofun

theorem readClauses_congr {members : List (String × Json)}
    (h : ∀ key value, (key, value) ∈ members →
      ∀ text, value.HasText text → readText text = readText' text) :
    readClauses readText members = readClauses readText' members := by
  cases members with
  | nil => rw [readClauses, readClauses]
  | cons member rest =>
    obtain ⟨key, value⟩ := member
    have hfirst := h key value List.mem_cons_self
    rw [readClauses_cons, readClauses_cons, readClause, readClause, readGroup_congr hfirst,
      readCondition_congr hfirst, readClauses_congr fun key value hmem => h key value (List.mem_cons_of_mem _ hmem)]

theorem readGroup_congr {key : String} {json : Json}
    (h : ∀ text, json.HasText text → readText text = readText' text) :
    readGroup readText key json = readGroup readText' key json := by
  cases json with
  | array items =>
    rw [readGroup, readGroup, readFilters_congr fun item hmem text htext =>
      h text (.item hmem htext)]
  | null | bool _ | number _ | string _ | object _ => rw [readGroup, readGroup] <;> nofun

theorem readFilters_congr {items : List Json}
    (h : ∀ item ∈ items, ∀ text, item.HasText text → readText text = readText' text) :
    readFilters readText items = readFilters readText' items := by
  cases items with
  | nil => rw [readFilters, readFilters]
  | cons item rest =>
    rw [readFilters, readFilters, read_congr (h item List.mem_cons_self),
      readFilters_congr fun item hmem => h item (List.mem_cons_of_mem _ hmem)]

theorem readCondition_congr {json : Json}
    (h : ∀ text, json.HasText text → readText text = readText' text) :
    readCondition readText json = readCondition readText' json := by
  cases json with
  | object members =>
    have hmembers (key : String) (value : Json) (hmem : (key, value) ∈ members) (text : String)
        (htext : value.HasText text) := h text (.member hmem htext)
    rw [readCondition, readCondition, readClauses_congr hmembers, readFirst_congr hmembers]
  | null | bool _ | number _ | string _ | array _ => rw [readCondition, readCondition] <;> nofun

theorem readFirst_congr {members : List (String × Json)}
    (h : ∀ key value, (key, value) ∈ members →
      ∀ text, value.HasText text → readText text = readText' text) :
    readFirst readText members = readFirst readText' members := by
  cases members with
  | nil => rw [readFirst, readFirst]
  | cons member rest =>
    obtain ⟨key, value⟩ := member
    rw [readFirst, readFirst, read_congr (h key value List.mem_cons_self)]
end

theorem read?_empty : Json.read? "" = none := Option.isNone_iff_eq_none.mp (by decide +kernel)

theorem ofText_empty (levels : Nat) : ofText levels "" = .error (.filter .notJson) := by
  cases levels with
  | zero => rfl
  | succ levels => rw [ofText, read?_empty]

/-- A text is read the same in any number of levels that is not less than its length. -/
theorem ofText_eq_ofText {levels : Nat} : ∀ {levels' : Nat} {s : String}, s.length ≤ levels →
    s.length ≤ levels' → ofText levels s = ofText levels' s := by
  induction levels with
  | zero =>
    intro levels' s hs _
    obtain rfl : s = "" := String.length_eq_zero_iff.mp (Nat.le_zero.mp hs)
    rw [ofText_empty, ofText_empty]
  | succ levels ih =>
    intro levels' s hs hs'
    cases levels' with
    | zero =>
      obtain rfl : s = "" := String.length_eq_zero_iff.mp (Nat.le_zero.mp hs')
      rw [ofText_empty, ofText_empty]
    | succ levels' =>
      rw [ofText, ofText]
      cases hread : Json.read? s with
      | none => rfl
      | some json =>
        -- texts in the text are shorter, and one level less is enough for them
        have hsame : read (ofText levels) json = read (ofText levels') json :=
          read_congr fun text htext => by
            have hless := Json.length_lt_of_read? hread htext
            exact ih (by omega) (by omega)
        cases json with
        | string _ => rfl
        | null | bool _ | number _ | array _ | object _ => exact hsame

/-- A text is read as the object that it holds. -/
theorem ofJson_text {s : String} {members : List (String × Json)}
    (h : Json.read? s = some (.object members)) : ofJson (.string s) = ofJson (.object members) := by
  rw [ofJson, read]
  cases hlength : s.length with
  | zero =>
    obtain rfl : s = "" := String.length_eq_zero_iff.mp hlength
    cases read?_empty.symm.trans h
  | succ levels =>
    rw [ofText, h]
    refine read_congr fun text htext => ?_
    have hless := Json.length_lt_of_read? h htext
    exact ofText_eq_ofText (by omega) (Nat.le_refl _)

/-- A reader of texts reads those that hold objects as these are read. -/
def ReadsTexts (readText : String → Except QueryError Filter) : Prop :=
  ∀ s members, Json.read? s = some (.object members) →
    readText s = read readText (.object members)

theorem readsTexts_ofText : ReadsTexts fun s => ofText s.length s :=
  fun s members h => by
    have htext := ofJson_text h
    rwa [ofJson, read] at htext

theorem readComparison_eq_ok_iff {key : String} {value : Json} {comparison : Comparison} :
    readComparison key value = .ok comparison ↔ IsComparison (key, value) comparison := by
  obtain ⟨operator, compared⟩ := comparison
  unfold readComparison IsComparison
  cases hkey : Operator.ofKey? key with
  | none => simpa using fun h => absurd h (Operator.key_ne_of_ofKey? hkey operator)
  | some found =>
    have hfound := Operator.key_of_ofKey? hkey
    constructor
    · intro h
      cases h
      exact ⟨hfound, rfl⟩
    · rintro ⟨hoperator, hvalue⟩
      dsimp only at hoperator hvalue
      rw [← hoperator, Operator.ofKey?_key] at hkey
      rw [hvalue, Option.some.inj hkey]

/-- The comparisons of an object of operators. -/
theorem mapM_readComparison {members : List (String × Json)} {comparisons : List Comparison} :
    (members.mapM fun (key, value) => readComparison key value) = .ok comparisons ↔
      List.Forall₂ IsComparison members comparisons := by
  induction members generalizing comparisons with
  | nil =>
    rw [List.mapM_nil, List.forall₂_nil_left_iff]
    exact ⟨fun h => (Except.ok.inj h).symm, fun h => h ▸ rfl⟩
  | cons member rest ih =>
    rw [List.mapM_cons, Except.bind_eq_ok_iff, List.forall₂_cons_left_iff]
    simp only [Except.bind_eq_ok_iff, ih, readComparison_eq_ok_iff]
    constructor
    · rintro ⟨first, hfirst, others, hothers, hsame⟩
      cases hsame
      exact ⟨first, others, hfirst, hothers, rfl⟩
    · rintro ⟨first, others, hfirst, hothers, rfl⟩
      exact ⟨first, hfirst, others, hothers, rfl⟩

theorem soleQuantifier?_eq_none {members : List (String × Json)}
    (h : ∀ member ∈ members, Quantifier.ofKey? member.1 = none) : soleQuantifier? members = none := by
  unfold soleQuantifier?
  split
  · exact h _ (List.mem_singleton_self _)
  · rfl

theorem not_isComparison {members : List (String × Json)}
    (h : (members.any fun (key, _) => isOperatorKey key) = false) :
    ¬isComparison members = true := by
  cases members with
  | nil => decide
  | cons member rest => simp_all [isComparison]

mutual
/-- What a value denotes is read from it. -/
theorem read_of_denotes (hr : ReadsTexts readText) {json : Json} {f : Filter} :
    DenotesFilter json f → read readText json = .ok f
  | .object h => by
    rw [read, readClauses_of_denote hr h]
    rfl
  | .text hread h => by
    rw [read, hr _ _ hread, read, readClauses_of_denote hr h]
    rfl

theorem readClauses_of_denote (hr : ReadsTexts readText) {members : List (String × Json)}
    {clauses : List Clause} : DenoteClauses members clauses →
      readClauses readText members = .ok clauses
  | .nil => by rw [readClauses]
  | .cons hfirst hrest => by
    rw [readClauses_cons, readClause_of_denotes hr hfirst, readClauses_of_denote hr hrest]
    rfl

theorem readClause_of_denotes (hr : ReadsTexts readText) {key : String} {value : Json}
    {clause : Clause} : DenotesClause key value clause → readClause readText key value = .ok clause
  | .all h => by
    rw [readClause, if_pos rfl, readGroup, readFilters_of_denote hr h]
    rfl
  | .any h => by
    rw [readClause, if_neg (by decide), if_pos rfl, readGroup, readFilters_of_denote hr h]
    rfl
  | .field hunmarked h => by
    have hgroup (name : String) (hmarked : isMarked name = true) : key ≠ name := by
      rintro rfl
      rw [hmarked] at hunmarked
      cases hunmarked
    rw [readClause, if_neg (hgroup "_and" (by decide)), if_neg (hgroup "_or" (by decide)),
      keyFault?_eq_none hunmarked, readCondition_of_denotes hr h]
    rfl

theorem readFilters_of_denote (hr : ReadsTexts readText) {items : List Json}
    {filters : List Filter} : DenoteFilters items filters → readFilters readText items = .ok filters
  | .nil => by rw [readFilters]
  | .cons hfirst hrest => by
    rw [readFilters, read_of_denotes hr hfirst, readFilters_of_denote hr hrest]
    rfl

theorem readCondition_of_denotes (hr : ReadsTexts readText) {json : Json}
    {condition : FieldCondition} : DenotesCondition json condition →
      readCondition readText json = .ok condition
  | .equal hplain => by
    rw [readCondition]
    rintro members rfl
    exact hplain
  | .compare hsome h => by
    rw [readCondition, if_pos (isComparison_of_comparisons hsome h), mapM_readComparison.mpr h]
    rfl
  | @DenotesCondition.quantified quantifier _ _ h => by
    rw [readCondition, if_neg (not_isComparison (by simp [isOperatorKey_quantifier])),
      soleQuantifier?, Quantifier.ofKey?_key]
    dsimp only
    rw [readFirst, read_of_denotes hr h]
    rfl
  | @DenotesCondition.nested members _ h => by
    have hkeys := key_of_denoteClauses h
    have hoperators : (members.any fun (key, _) => isOperatorKey key) = false := by
      simpa using fun key value hmem => (hkeys (key, value) hmem).1
    rw [readCondition, if_neg (not_isComparison hoperators), soleQuantifier?_eq_none fun member hmem =>
      (hkeys member hmem).2]
    dsimp only
    rw [if_neg (by rw [hoperators]; exact Bool.false_ne_true), readClauses_of_denote hr h]
    rfl
end

/-! ## What is read is denoted -/

/-- A key that is no fault of a field has no underscore. -/
theorem isMarked_eq_false {key : String} (h : keyFault? key = none) : isMarked key = false := by
  unfold keyFault? at h
  split at h
  · cases h
  · split at h
    · cases h
    · next hunmarked => simpa using hunmarked

/-- A member of an object denotes what is read from it, where its value does. -/
theorem denotes_of_readClause {key : String} {value : Json} {clause : Clause}
    (hgroup : ∀ filters, readGroup readText key value = .ok filters →
      ∃ items, value = .array items ∧ DenoteFilters items filters)
    (hfield : ∀ condition, readCondition readText value = .ok condition →
      DenotesCondition value condition)
    (h : readClause readText key value = .ok clause) : DenotesClause key value clause := by
  unfold readClause at h
  split at h
  · next hkey =>
    obtain ⟨filters, hfilters, rfl⟩ := Except.map_eq_ok_iff.mp h
    obtain ⟨items, rfl, hitems⟩ := hgroup filters hfilters
    exact hkey ▸ .all hitems
  · split at h
    · next hkey =>
      obtain ⟨filters, hfilters, rfl⟩ := Except.map_eq_ok_iff.mp h
      obtain ⟨items, rfl, hitems⟩ := hgroup filters hfilters
      exact hkey ▸ .any hitems
    · split at h
      · cases h
      · next hfault =>
        obtain ⟨condition, hcondition, rfl⟩ := Except.map_eq_ok_iff.mp h
        exact .field (isMarked_eq_false hfault) (hfield condition hcondition)

/-- What a reader gives for texts, the texts denote. -/
def GivesDenoted (readText : String → Except QueryError Filter) : Prop :=
  ∀ s f, readText s = .ok f → DenotesFilter (.string s) f

mutual
/-- What is read from a value, the value denotes. -/
theorem denotes_of_read (hr : GivesDenoted readText) {json : Json} {f : Filter}
    (h : read readText json = .ok f) : DenotesFilter json f := by
  cases json with
  | object members =>
    rw [read, Except.map_eq_ok_iff] at h
    obtain ⟨clauses, hclauses, rfl⟩ := h
    exact .object (denote_of_readClauses hr hclauses)
  | string s =>
    rw [read] at h
    exact hr s f h
  | null | bool _ | number _ | array _ =>
    rw [read] at h <;> cases h

theorem denote_of_readClauses (hr : GivesDenoted readText) {members : List (String × Json)}
    {clauses : List Clause} (h : readClauses readText members = .ok clauses) :
    DenoteClauses members clauses := by
  cases members with
  | nil =>
    rw [readClauses] at h
    cases h
    exact .nil
  | cons member rest =>
    obtain ⟨key, value⟩ := member
    rw [readClauses_cons, Except.bind_eq_ok_iff] at h
    obtain ⟨clause, hclause, h⟩ := h
    rw [Except.bind_eq_ok_iff] at h
    obtain ⟨others, hothers, h⟩ := h
    cases h
    have hfirst : DenotesClause key value clause :=
      denotes_of_readClause (fun _ => denote_of_readGroup hr)
        (fun _ => denotes_of_readCondition hr) hclause
    exact .cons hfirst (denote_of_readClauses hr hothers)

theorem denote_of_readGroup (hr : GivesDenoted readText) {key : String} {json : Json}
    {filters : List Filter} (h : readGroup readText key json = .ok filters) :
    ∃ items, json = .array items ∧ DenoteFilters items filters := by
  cases json with
  | array items =>
    rw [readGroup] at h
    exact ⟨items, rfl, denote_of_readFilters hr h⟩
  | null | bool _ | number _ | string _ | object _ => rw [readGroup] at h <;> cases h

theorem denote_of_readFilters (hr : GivesDenoted readText) {items : List Json}
    {filters : List Filter} (h : readFilters readText items = .ok filters) :
    DenoteFilters items filters := by
  cases items with
  | nil =>
    rw [readFilters] at h
    cases h
    exact .nil
  | cons item rest =>
    rw [readFilters, Except.bind_eq_ok_iff] at h
    obtain ⟨f, hf, h⟩ := h
    rw [Except.bind_eq_ok_iff] at h
    obtain ⟨others, hothers, h⟩ := h
    cases h
    exact .cons (denotes_of_read hr hf) (denote_of_readFilters hr hothers)

theorem denotes_of_readCondition (hr : GivesDenoted readText) {json : Json}
    {condition : FieldCondition} (h : readCondition readText json = .ok condition) :
    DenotesCondition json condition := by
  cases json with
  | object members =>
    rw [readCondition] at h
    split at h
    · next hcompares =>
      obtain ⟨comparisons, hcomparisons, rfl⟩ := Except.map_eq_ok_iff.mp h
      refine .compare ?_ (mapM_readComparison.mp hcomparisons)
      rintro rfl
      cases hcompares
    · split at h
      · next quantifier hsole =>
        obtain ⟨f, hf, rfl⟩ := Except.map_eq_ok_iff.mp h
        match members, hsole with
        | [(key, value)], hsole =>
          rw [← Quantifier.key_of_ofKey? hsole]
          rw [readFirst] at hf
          exact .quantified (denotes_of_read hr hf)
      · split at h
        · cases h
        · obtain ⟨clauses, hclauses, rfl⟩ := Except.map_eq_ok_iff.mp h
          exact .nested (denote_of_readClauses hr hclauses)
  | null | bool _ | number _ | string _ | array _ =>
    rw [readCondition] at h
    · cases h
      exact .equal trivial
    · nofun
end

/-- What is read from a text, the text denotes. -/
theorem givesDenoted_ofText (levels : Nat) : GivesDenoted (ofText levels) := by
  induction levels with
  | zero => nofun
  | succ levels ih =>
    intro s f h
    rw [ofText] at h
    split at h
    · cases h
    · cases h
    · next json hplain hread =>
      cases denotes_of_read ih h with
      | object hclauses => exact .text hread hclauses
      | text => exact absurd rfl (hplain _)

/-! ## Unknown operators -/

theorem readsKey_cons {key : String} {member : String × Json} {members : List (String × Json)}
    (h : Json.ReadsKey key (.object members)) : Json.ReadsKey key (.object (member :: members)) := by
  cases h with
  | here hmem => exact .here (List.mem_cons_of_mem _ hmem)
  | group hmem hname hitem h => exact .group (List.mem_cons_of_mem _ hmem) hname hitem h
  | field hmem hname h => exact .field (List.mem_cons_of_mem _ hmem) hname h
  | quantified hmem h => exact .quantified (List.mem_cons_of_mem _ hmem) h

/-- A key is where keys are read in a value, and is unknown. -/
def Meets (key : String) (json : Json) : Prop := json.ReadsKey key ∧ IsUnknownKey key

/-- A key in the place of a field that is unknown as an operator. -/
theorem isUnknownKey_of_keyFault? {key unknown : String} (hall : key ≠ "_and") (hany : key ≠ "_or")
    (h : keyFault? key = some (.unknownOperator unknown)) : unknown = key ∧ IsUnknownKey key := by
  unfold keyFault? at h
  split at h
  · cases h
  · next hquantifier =>
    split at h
    · next hmarked =>
      cases hoperator : Operator.ofKey? key with
      | some operator =>
        rw [hoperator] at h
        cases h
      | none =>
        rw [hoperator] at h
        cases h
        refine ⟨rfl, hmarked, ?_, Operator.key_ne_of_ofKey? hoperator⟩
        have hsome : key ≠ "_some" := by
          rintro rfl
          exact hquantifier (by decide)
        have hnone : key ≠ "_none" := by
          rintro rfl
          exact hquantifier (by decide)
        simp [reservedKeys, hall, hany, hsome, hnone]
    · cases h

/-- An unknown key in the place of an operator. -/
theorem isUnknownKey_of_readComparison {key unknown : String} {value : Json}
    (hkey : isOperatorKey key = true)
    (h : readComparison key value = .error (.unknownOperator unknown)) :
    unknown = key ∧ IsUnknownKey key := by
  unfold readComparison at h
  cases hoperator : Operator.ofKey? key with
  | some operator =>
    rw [hoperator] at h
    cases h
  | none =>
    rw [hoperator] at h
    cases h
    rw [isOperatorKey, Bool.and_eq_true, Bool.not_eq_true', List.contains_eq_mem,
      decide_eq_false_iff_not] at hkey
    exact ⟨rfl, hkey.1, hkey.2, Operator.key_ne_of_ofKey? hoperator⟩

/-- A key in a member of an object, where keys are read of its value. -/
theorem meets_of_readClause {members : List (String × Json)} {name key : String} {value : Json}
    (hmem : (name, value) ∈ members)
    (hgroup : readGroup readText name value = .error (.unknownOperator key) →
      ∃ items item, value = .array items ∧ item ∈ items ∧ Meets key item)
    (hfield : readCondition readText value = .error (.unknownOperator key) →
      ∃ inner, value = .object inner ∧ Meets key value)
    (h : readClause readText name value = .error (.unknownOperator key)) :
    Meets key (.object members) := by
  have hgrouped (hname : name = "_and" ∨ name = "_or")
      (h : readGroup readText name value = .error (.unknownOperator key)) :
      Meets key (.object members) := by
    obtain ⟨items, item, rfl, hitem, hmeets⟩ := hgroup h
    exact ⟨.group hmem hname hitem hmeets.1, hmeets.2⟩
  unfold readClause at h
  split at h
  · next hname => exact hgrouped (.inl hname) (Except.map_eq_error_iff.mp h)
  · next hall =>
    split at h
    · next hname => exact hgrouped (.inr hname) (Except.map_eq_error_iff.mp h)
    · next hany =>
      split at h
      · next fault hfault =>
        obtain rfl := Except.error.inj h
        obtain ⟨rfl, hunknown⟩ := isUnknownKey_of_keyFault? hall hany hfault
        exact ⟨.here hmem, hunknown⟩
      · next hfault =>
        obtain ⟨inner, rfl, hmeets⟩ := hfield (Except.map_eq_error_iff.mp h)
        exact ⟨.field hmem (isMarked_eq_false hfault) hmeets.1, hmeets.2⟩

/-- The unknown operators that a reader reports of texts stand in these texts. -/
def ReportsMet (readText : String → Except QueryError Filter) : Prop :=
  ∀ s key, readText s = .error (.unknownOperator key) → Meets key (.string s)

mutual
/-- An unknown operator that is reported of a value stands in it. -/
theorem meets_of_read (hr : ReportsMet readText) {json : Json} {key : String}
    (h : read readText json = .error (.unknownOperator key)) : Meets key json := by
  cases json with
  | object members =>
    rw [read, Except.map_eq_error_iff] at h
    exact meets_of_readClauses hr h
  | string s =>
    rw [read] at h
    exact hr s key h
  | null | bool _ | number _ | array _ => rw [read] at h <;> cases h

theorem meets_of_readClauses (hr : ReportsMet readText) {members : List (String × Json)}
    {key : String} (h : readClauses readText members = .error (.unknownOperator key)) :
    Meets key (.object members) := by
  cases members with
  | nil =>
    rw [readClauses] at h
    cases h
  | cons member rest =>
    obtain ⟨name, value⟩ := member
    rw [readClauses_cons, Except.bind_eq_error_iff] at h
    obtain hfirst | ⟨clause, -, h⟩ := h
    · exact meets_of_readClause List.mem_cons_self (meets_of_readGroup hr)
        (meets_of_readCondition hr) hfirst
    · obtain hrest | ⟨clauses, -, h⟩ := Except.bind_eq_error_iff.mp h
      · have hmeets := meets_of_readClauses hr hrest
        exact ⟨readsKey_cons hmeets.1, hmeets.2⟩
      · cases h

theorem meets_of_readGroup (hr : ReportsMet readText) {name key : String} {json : Json}
    (h : readGroup readText name json = .error (.unknownOperator key)) :
    ∃ items item, json = .array items ∧ item ∈ items ∧ Meets key item := by
  cases json with
  | array items =>
    rw [readGroup] at h
    obtain ⟨item, hitem, hmeets⟩ := meets_of_readFilters hr h
    exact ⟨items, item, rfl, hitem, hmeets⟩
  | null | bool _ | number _ | string _ | object _ => rw [readGroup] at h <;> cases h

theorem meets_of_readFilters (hr : ReportsMet readText) {items : List Json} {key : String}
    (h : readFilters readText items = .error (.unknownOperator key)) :
    ∃ item ∈ items, Meets key item := by
  cases items with
  | nil =>
    rw [readFilters] at h
    cases h
  | cons item rest =>
    rw [readFilters, Except.bind_eq_error_iff] at h
    obtain hfirst | ⟨f, -, h⟩ := h
    · exact ⟨item, List.mem_cons_self, meets_of_read hr hfirst⟩
    · obtain hrest | ⟨filters, -, h⟩ := Except.bind_eq_error_iff.mp h
      · obtain ⟨found, hfound, hmeets⟩ := meets_of_readFilters hr hrest
        exact ⟨found, List.mem_cons_of_mem _ hfound, hmeets⟩
      · cases h

theorem meets_of_readCondition (hr : ReportsMet readText) {json : Json} {key : String}
    (h : readCondition readText json = .error (.unknownOperator key)) :
    ∃ inner, json = .object inner ∧ Meets key json := by
  cases json with
  | object members =>
    refine ⟨members, rfl, ?_⟩
    rw [readCondition] at h
    split at h
    · next hcompares =>
      obtain ⟨⟨name, value⟩, hmem, hfails⟩ :=
        Except.exists_of_mapM_eq_error (Except.map_eq_error_iff.mp h)
      have hoperators := (Bool.and_eq_true _ _ ▸ hcompares).2
      obtain ⟨rfl, hunknown⟩ :=
        isUnknownKey_of_readComparison (List.all_eq_true.mp hoperators _ hmem) hfails
      exact ⟨.here hmem, hunknown⟩
    · split at h
      · next quantifier hsole =>
        match members, hsole with
        | [(name, value)], hsole =>
          rw [Except.map_eq_error_iff, readFirst] at h
          have hmeets := meets_of_read hr h
          rw [← Quantifier.key_of_ofKey? hsole]
          exact ⟨.quantified (List.mem_singleton_self _) hmeets.1, hmeets.2⟩
      · split at h
        · cases h
        · exact meets_of_readClauses hr (Except.map_eq_error_iff.mp h)
  | null | bool _ | number _ | string _ | array _ => rw [readCondition] at h <;> cases h
end

/-- An unknown operator that is reported of a text stands in the object that it holds. -/
theorem reportsMet_ofText (levels : Nat) : ReportsMet (ofText levels) := by
  induction levels with
  | zero => nofun
  | succ levels ih =>
    intro s key h
    rw [ofText] at h
    split at h
    · cases h
    · cases h
    · next json hplain hread =>
      obtain ⟨hkey, hunknown⟩ := meets_of_read ih h
      cases json with
      | object members => exact ⟨.text hread hkey, hunknown⟩
      | string text => exact absurd rfl (hplain text)
      | null | bool _ | number _ | array _ => cases hkey

end Filter

/-! ## The grammar -/

/-- The key that a clause is read from. -/
def Clause.name : Clause → String
  | all _ => "_and"
  | any _ => "_or"
  | field key _ => key

/-- The members of an object, or of the object that a text holds. -/
def Json.members? : Json → Option (List (String × Json))
  | .object members => some members
  | .string s =>
    match Json.read? s with
    | some (.object members) => some members
    | _ => none
  | _ => none

theorem map_name_of_denoteClauses {members : List (String × Json)} {clauses : List Clause}
    (h : DenoteClauses members clauses) : clauses.map Clause.name = members.map Prod.fst := by
  induction members generalizing clauses with
  | nil =>
    cases h
    rfl
  | cons member rest ih =>
    cases h with
    | cons hfirst hrest =>
      rw [List.map_cons, List.map_cons, ih hrest]
      cases hfirst <;> rfl

/-- A filter has a clause for each key, in the order of the keys. -/
theorem map_name_of_denotesFilter {json : Json} {f : Filter} (h : DenotesFilter json f) :
    ∃ members, json.members? = some members ∧
      f.clauses.map Clause.name = members.map Prod.fst := by
  cases h with
  | object hclauses => exact ⟨_, rfl, map_name_of_denoteClauses hclauses⟩
  | text hread hclauses => exact ⟨_, by rw [Json.members?, hread], map_name_of_denoteClauses hclauses⟩

/-- The reader takes the values that denote a filter and no others, and gives the filter that they
denote, with a clause for each key in the order of the keys.  An operator that it reports as unknown
is a key that stands where keys are read, starts with an underscore, is not reserved and names no
operator. -/
theorem ofJson_grammar (json : Json) :
    (∀ f, Filter.ofJson json = .ok f ↔ DenotesFilter json f) ∧
    (∀ f, DenotesFilter json f → ∃ members, json.members? = some members ∧
      f.clauses.map Clause.name = members.map Prod.fst) ∧
    ∀ key, Filter.ofJson json = .error (.unknownOperator key) →
      json.ReadsKey key ∧ IsUnknownKey key := by
  refine ⟨fun f => ⟨fun h => ?_, fun h => ?_⟩, fun f => map_name_of_denotesFilter, fun key h => ?_⟩
  · exact Filter.denotes_of_read (fun s => Filter.givesDenoted_ofText s.length s) h
  · exact Filter.read_of_denotes Filter.readsTexts_ofText h
  · exact Filter.meets_of_read (fun s => Filter.reportsMet_ofText s.length s) h

/-- A text that holds a filter, and an operator that there is none of. -/
theorem ofJson_grammar_text :
    (∃ f, DenotesFilter (.string "\x7b\"views\": \x7b\"_gt\": 1\x7d, \"_or\": []\x7d") f ∧
      f.clauses.map Clause.name = ["views", "_or"]) ∧
    IsUnknownKey "_regex" := by
  constructor
  · obtain ⟨f, hf, hnames⟩ := Except.exists_eq_ok (f := fun f => f.clauses.map Clause.name)
      (x := Filter.ofJson (.string "\x7b\"views\": \x7b\"_gt\": 1\x7d, \"_or\": []\x7d"))
      (b := ["views", "_or"]) (by decide +kernel)
    exact ⟨f, ((ofJson_grammar _).1 f).mp hf, hnames⟩
  · have hunknown : Filter.ofJson (.object [("title", .object [("_regex", .string "^a")])]) =
        .error (.unknownOperator "_regex") := by
      rfl
    exact ((ofJson_grammar _).2.2 "_regex" hunknown).2

end JsonSql
