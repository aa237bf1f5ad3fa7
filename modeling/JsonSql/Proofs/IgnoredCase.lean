import JsonSql.Proofs.Concealed
import JsonSql.Proofs.FinalSigmas
import JsonSql.Proofs.Patterns

set_option autoImplicit false

/-!
# Comparisons that take no notice of case

Both sides of such a comparison are put into lower case, each as a text of its own.  A text that
equals another one still does so in lower case.  A text that is held by another one need not be: the
lower case of a sigma at its end may be told by what stands next to it in the other text
(`Placement.exposesSigma`).  The operators that take no notice of case find everything that their
twins find when no sigma is exposed, and miss something when one is (`coarser_unless_exposed`).
-/

namespace JsonSql

open JsonSql.Sql

/-! ## Texts in lower case -/

namespace Placement

/-- Whether a sigma of a text has a lower case that depends on a text which holds it at a place. -/
def exposesSigma (place : Placement) (v : String) : Bool :=
  match place with
  | anywhere => Text.beginsWithSigma v.toList || Text.endsWithSigma v.toList
  | atStart => Text.endsWithSigma v.toList
  | atEnd => Text.beginsWithSigma v.toList

variable {place : Placement} {v s : String}

/-- A part of a text that exposes no sigma is in lower case the part of the text in lower case. -/
theorem Holds.toLower (h : place.Holds v s) (hsigma : place.exposesSigma v = false) :
    place.Holds (Text.toLower v) (Text.toLower s) := by
  have hsplit (before after : List Char) : Text.lowerChars [] (before ++ v.toList ++ after) =
      Text.lowerWithin (v.toList ++ after) [] before ++
        (Text.lowerWithin after before.reverse v.toList ++
          Text.lowerWithin [] (v.toList.reverse ++ before.reverse) after) := by
    rw [← Text.lowerWithin_nil, List.append_assoc, Text.lowerWithin_append,
      Text.lowerWithin_append, List.append_nil, List.append_nil, List.append_nil]
  cases place with
  | anywhere =>
    obtain ⟨before, after, hs⟩ := h
    obtain ⟨hbegins, hends⟩ := Bool.or_eq_false_iff.mp hsigma
    unfold Holds Text.toLower
    rw [String.toList_ofList, String.toList_ofList, ← hs, hsplit,
      Text.lowerWithin_of_not_beginsWithSigma hbegins, Text.lowerWithin_of_not_endsWithSigma hends,
      Text.lowerWithin_nil, ← List.append_assoc]
    exact List.infix_append _ _ _
  | atStart =>
    obtain ⟨after, hs⟩ := h
    unfold Holds Text.toLower
    have hstart := hsplit [] after
    rw [List.nil_append, List.reverse_nil, Text.lowerWithin_of_not_endsWithSigma hsigma,
      Text.lowerWithin_nil] at hstart
    rw [String.toList_ofList, String.toList_ofList, ← hs, hstart]
    exact List.prefix_append _ _
  | atEnd =>
    obtain ⟨before, hs⟩ := h
    unfold Holds Text.toLower
    have hend := hsplit before []
    rw [List.append_nil, Text.lowerWithin_of_not_beginsWithSigma hsigma, Text.lowerWithin_nil,
      Text.lowerWithin, List.append_nil, List.append_nil] at hend
    rw [String.toList_ofList, String.toList_ofList, ← hs, hend]
    exact List.suffix_append _ _

theorem Holds.isInfix (h : place.Holds v s) : v.toList <:+: s.toList := by
  cases place with
  | anywhere => exact h
  | atStart => exact List.IsPrefix.isInfix h
  | atEnd => exact List.IsSuffix.isInfix h

/-- A part that exposes a sigma is in lower case not held by some text in lower case that holds
it. -/
theorem exists_holds_of_exposesSigma (h : place.exposesSigma v = true) :
    ∃ s, place.Holds v s ∧ ¬place.Holds (Text.toLower v) (Text.toLower s) := by
  have hbegins (h : Text.beginsWithSigma v.toList = true) :
      ¬place.Holds (Text.toLower v) (Text.toLower (.ofList (Text.capitalAlpha :: v.toList))) := by
    intro hholds
    have hle := hholds.isInfix.sublist.count_le 'σ'
    unfold Text.toLower at hle
    rw [String.toList_ofList, String.toList_ofList, String.toList_ofList,
      Text.count_lowerChars_cons h] at hle
    omega
  have hends (h : Text.endsWithSigma v.toList = true) :
      ¬place.Holds (Text.toLower v) (Text.toLower (.ofList (v.toList ++ [Text.capitalAlpha]))) := by
    intro hholds
    have hle := hholds.isInfix.sublist.count_le 'ς'
    unfold Text.toLower at hle
    rw [String.toList_ofList, String.toList_ofList, String.toList_ofList,
      Text.count_lowerChars_concat h] at hle
    omega
  cases place with
  | anywhere =>
    rcases Bool.or_eq_true_iff.mp h with h | h
    · refine ⟨_, ?_, hbegins h⟩
      rw [Holds, String.toList_ofList]
      exact (List.suffix_cons _ _).isInfix
    · refine ⟨_, ?_, hends h⟩
      rw [Holds, String.toList_ofList]
      exact (List.prefix_append _ _).isInfix
  | atStart =>
    refine ⟨_, ?_, hends h⟩
    rw [Holds, String.toList_ofList]
    exact List.prefix_append _ _
  | atEnd =>
    refine ⟨_, ?_, hbegins h⟩
    rw [Holds, String.toList_ofList]
    exact List.suffix_cons _ _

end Placement

/-! ## Conditions -/

/-- An engine to which a text equals itself, and no literal of which the text is another one. -/
structure Sql.Engine.ComparesTexts (E : Engine) : Prop where
  self : ∀ s, E.same (E.text s) (E.text s) = .yes
  only : ∀ s x, E.same (E.text s) (E.literal x) = .yes → x.patternText = s

theorem comparesTexts_texts : Engine.texts.ComparesTexts where
  self s := by simp [Engine.same, Engine.text, Engine.compare, Engine.texts, Engine.literals,
    Truth.ofBool]
  only s x h := by
    cases x with
    | null => cases h
    | int n => cases h
    | string t =>
      have heq : Literal.string s = .string t := of_decide_eq_true (Truth.ofBool_eq_yes.mp h)
      exact (Literal.string.inj heq).symm
    | _ => cases h

/-- A condition holds of every text of a column of which another one holds. -/
def Sql.Expr.Covers (E : Engine) (e' e column : Expr) : Prop :=
  ∀ (db : Database E) (tables : Tables E) (s : String), column.value db [] tables = E.text s →
    e.truthOn db tables = .yes → e'.truthOn db tables = .yes

/-- A condition does not hold of some text of a column of which another one holds. -/
def Sql.Expr.Misses (E : Engine) (e' e column : Expr) : Prop :=
  ∃ s, ∀ (db : Database E) (tables : Tables E), column.value db [] tables = E.text s →
    e.truthOn db tables = .yes ∧ e'.truthOn db tables = .no

/-- The operators that take no notice of case are for texts. -/
theorem Operator.isText_of_ignoresCase {op : Operator} {type : FieldType}
    (hcase : op.ignoresCase = true) (h : op.isAllowedFor type = true) : type.isText = true := by
  cases op with
  | equal ignoreCase negated =>
    cases hcase
    cases type <;> first | rfl | (cases negated <;> cases h)
  | holds place ignoreCase negated =>
    cases hcase
    cases type <;> first | rfl | (cases place <;> cases negated <;> cases h)
  | _ => cases hcase

/-- Columns of texts compare plain values. -/
theorem FieldType.valueKind_of_isText {type : FieldType} (h : type.isText = true) :
    type.valueKind = .plain := by
  cases type <;> first | rfl | cases h

namespace Context

variable {c : Context} {column : Column} {op : Operator} {value : Json}

/-- A column of texts that are not concealed admits the operators that take notice of case. -/
theorem checkOperator_of_isText (hconcealed : column.concealed = false)
    (htext : column.type.isText = true) (hop : op.isAllowedFor .string = true) :
    checkOperator column op = .ok () := by
  have hallowed : op.isAllowedFor column.type = true := by
    cases htype : column.type <;> rw [htype] at htext <;> first | exact hop | cases htext
  rw [checkOperator, hconcealed, Bool.false_and, hallowed]
  rfl

/-- The condition of an operator with one value on a column of plain values. -/
theorem compare?_of_single (harity : op.arity = .single)
    (hadmitted : checkOperator column op = .ok ()) (hkind : column.valueKind = .plain)
    (hvalue : value.isNull = false) :
    c.compare? column ⟨op, some value⟩ =
      .ok (some (op.compareOne column.expr (.ofJson c.dialect .plain value))) := by
  simp only [compare?, hadmitted, hkind, harity]
  rw [Literal.list_single hvalue]
  cases op <;> first | rfl | cases harity

end Context

/-! ## Operators that take no notice of case -/

/-- Where a text equals a value, they are equal in lower case. -/
theorem Operator.covers_equal {E : Engine} (hreads : E.ReadsTexts) (hcompares : E.ComparesTexts)
    (column : Expr) (x : Literal) :
    ((equal true false).compareOne column x).Covers E ((equal false false).compareOne column x)
      column := by
  intro db tables s hs hequal
  have htruth (ignoreCase : Bool) :
      some (((equal ignoreCase false).compareOne column x).truthOn db tables) =
        (equal ignoreCase false).truth? E .postgres (column.value db [] tables) [x] true :=
    truthOn_compareOne rfl .postgres column [x] true
  have hsame := (htruth false).symm.trans (congrArg some hequal)
  rw [hs] at hsame
  have htext := hcompares.only s x (Option.some.inj hsame)
  refine Option.some.inj ((htruth true).trans (congrArg some ?_))
  rw [hs, hreads.folded, ← htext]
  exact hcompares.self _

section

variable {E : Engine} (hreads : E.ReadsTexts) (place : Placement) (column : Expr) {x : Literal}
include hreads

/-- A text that holds a value without an exposed sigma is found if case does not count. -/
theorem Operator.truthOn_holds_of_holds (hsigma : place.exposesSigma x.patternText = false)
    {db : Database E} {tables : Tables E} {s : String} (hs : column.value db [] tables = E.text s)
    (hholds : place.Holds x.patternText s) :
    ((holds place true false).compareOne column x).truthOn db tables = .yes := by
  rw [matches_compareOne hreads place true false column x db tables s hs]
  exact Truth.ofBool_eq_yes.mpr (Placement.like_pattern_of_holds (hholds.toLower hsigma))

/-- Some text that holds a value with an exposed sigma is not found if case does not count. -/
theorem Operator.exists_holds_truthOn (hliteral : Text.isLiteral x.patternText = true)
    (hsigma : place.exposesSigma x.patternText = true) :
    ∃ s, place.Holds x.patternText s ∧
      ∀ (db : Database E) (tables : Tables E), column.value db [] tables = E.text s →
        ((holds place true false).compareOne column x).truthOn db tables = .no := by
  obtain ⟨s, hholds, hnot⟩ := Placement.exists_holds_of_exposesSigma hsigma
  refine ⟨s, hholds, fun db tables hs => ?_⟩
  rw [matches_compareOne hreads place true false column x db tables s hs]
  have hunlike := mt (Placement.like_pattern_iff (Text.isLiteral_toLower hliteral)).mp hnot
  exact congrArg Truth.ofBool (Bool.eq_false_iff.mpr hunlike)

/-- If case does not count, a value without an exposed sigma is found wherever it is found if case
counts. -/
theorem Operator.covers_holds (hliteral : Text.isLiteral x.patternText = true)
    (hsigma : place.exposesSigma x.patternText = false) :
    ((holds place true false).compareOne column x).Covers E
      ((holds place false false).compareOne column x) column := by
  intro db tables s hs hyes
  rw [matches_compareOne hreads place false false column x db tables s hs] at hyes
  exact truthOn_holds_of_holds hreads place column hsigma hs
    ((Placement.like_pattern_iff hliteral).mp (Truth.ofBool_eq_yes.mp hyes))

/-- If case does not count, a value with an exposed sigma is missed in a text where it is found if
case counts. -/
theorem Operator.misses_holds (hliteral : Text.isLiteral x.patternText = true)
    (hsigma : place.exposesSigma x.patternText = true) :
    ((holds place true false).compareOne column x).Misses E
      ((holds place false false).compareOne column x) column := by
  obtain ⟨s, hholds, hmissed⟩ := exists_holds_truthOn hreads place column hliteral hsigma
  refine ⟨s, fun db tables hs => ⟨?_, hmissed db tables hs⟩⟩
  rw [matches_compareOne hreads place false false column x db tables s hs]
  exact Truth.ofBool_eq_yes.mpr (Placement.like_pattern_of_holds hholds)

end

/--
The conditions of two operators that differ in whether case counts, on a column of texts that
admits both.  Where a text equals a value, so it does if case does not count.  Where a text holds a
value without `%` and `_`, so it does if case does not count, provided that no sigma of the value is
exposed at the place; otherwise some text that holds the value is missed.  A search finds the texts
that hold its term under the same provision.
-/
theorem coarser_unless_exposed {E : Engine} (hreads : E.ReadsTexts) (hcompares : E.ComparesTexts)
    (c : Context) :
    (∀ {hops : Hops} {collection : String} {path : List String} {column : Column} {k k' : Nat},
      (c.column hops collection path).Gives k column k' →
      ∀ value : Json, value.isNull = false →
        let text := (Literal.ofJson c.dialect .plain value).patternText
        (Context.checkOperator column (.equal true false) = .ok () → ∃ e e',
          c.compare? column ⟨.equal false false, some value⟩ = .ok (some e) ∧
          c.compare? column ⟨.equal true false, some value⟩ = .ok (some e') ∧
          e'.Covers E e column.expr) ∧
        ∀ place : Placement, Text.isLiteral text = true →
          Context.checkOperator column (.holds place true false) = .ok () → ∃ e e',
            c.compare? column ⟨.holds place false false, some value⟩ = .ok (some e) ∧
            c.compare? column ⟨.holds place true false, some value⟩ = .ok (some e') ∧
            (place.exposesSigma text = false → e'.Covers E e column.expr) ∧
            (place.exposesSigma text = true → e'.Misses E e column.expr)) ∧
      ∀ (collection term : String) (f : Field), f.isAlias = false → f.isConcealed = false →
        f.type.isText = true → ∃ e, searchPredicate? collection (Text.trim term) f = some e ∧
          (Placement.anywhere.exposesSigma (Text.trim term) = false →
            ∀ (db : Database E) (tables : Tables E) (s : String),
              (Expr.of collection f.name).value db [] tables = E.text s →
              Placement.anywhere.Holds (Text.trim term) s → e.truthOn db tables = .yes) ∧
          (Placement.anywhere.exposesSigma (Text.trim term) = true →
            Text.isLiteral (Text.trim term) = true →
            ∃ s, Placement.anywhere.Holds (Text.trim term) s ∧
              ∀ (db : Database E) (tables : Tables E),
                (Expr.of collection f.name).value db [] tables = E.text s →
                e.truthOn db tables = .no) := by
  refine ⟨fun {hops collection path column k k'} hcolumn value hvalue => ?_,
    fun collection term f halias hconcealed htext => ?_⟩
  · have hcompare {op twin : Operator} (hadmitted : Context.checkOperator column op = .ok ())
        (hcase : op.ignoresCase = true) (harity : op.arity = .single)
        (htwin : twin.isAllowedFor .string = true) (harity' : twin.arity = .single)
        (hblind : op.isBlind = false) :
        c.compare? column ⟨twin, some value⟩ =
            .ok (some (twin.compareOne column.expr (.ofJson c.dialect .plain value))) ∧
          c.compare? column ⟨op, some value⟩ =
            .ok (some (op.compareOne column.expr (.ofJson c.dialect .plain value))) := by
      have htext : column.type.isText = true :=
        Operator.isText_of_ignoresCase hcase (Context.isAllowedFor_of_checkOperator hadmitted)
      have hconcealed : column.concealed = false := by
        by_contra hnot
        rw [Context.isBlind_of_checkOperator hadmitted (by simpa using hnot)] at hblind
        cases hblind
      have hkind := (Context.valueKind_of_column hcolumn).trans
        (FieldType.valueKind_of_isText htext)
      exact ⟨Context.compare?_of_single harity'
          (Context.checkOperator_of_isText hconcealed htext htwin) hkind hvalue,
        Context.compare?_of_single harity hadmitted hkind hvalue⟩
    refine ⟨fun hadmitted => ?_, fun place hliteral hadmitted => ?_⟩
    · obtain ⟨hcased, huncased⟩ :=
        @hcompare _ (.equal false false) hadmitted rfl rfl rfl rfl rfl
      exact ⟨_, _, hcased, huncased, Operator.covers_equal hreads hcompares _ _⟩
    · obtain ⟨hcased, huncased⟩ :=
        @hcompare _ (.holds place false false) hadmitted rfl rfl (by cases place <;> rfl) rfl rfl
      exact ⟨_, _, hcased, huncased, Operator.covers_holds hreads place _ hliteral,
        Operator.misses_holds hreads place _ hliteral⟩
  · have hfound := Operator.truthOn_holds_of_holds hreads .anywhere (.of collection f.name)
      (x := .string (Text.trim term))
    have hmissed := Operator.exists_holds_truthOn hreads .anywhere (.of collection f.name)
      (x := .string (Text.trim term))
    exact ⟨_, searchPredicate?_of_isText halias hconcealed htext,
      fun hsigma db tables s hs hholds => hfound hsigma hs hholds,
      fun hsigma hliteral => hmissed hliteral hsigma⟩

theorem coarser_unless_exposed_blog :
    (∃ e e', (Schema.blog.context {} Alias.sequential).compare?
          ⟨.of "articles" "title", "title", .string, false, false⟩
          ⟨.holds .atEnd false false, some (.string "ΟΔΟΣ")⟩ = .ok (some e) ∧
        (Schema.blog.context {} Alias.sequential).compare?
          ⟨.of "articles" "title", "title", .string, false, false⟩
          ⟨.holds .atEnd true false, some (.string "ΟΔΟΣ")⟩ = .ok (some e') ∧
        e'.Covers Engine.texts e (.of "articles" "title")) ∧
      (∃ e e', (Schema.blog.context {} Alias.sequential).compare?
          ⟨.of "articles" "title", "title", .string, false, false⟩
          ⟨.holds .atStart false false, some (.string "ΟΔΟΣ")⟩ = .ok (some e) ∧
        (Schema.blog.context {} Alias.sequential).compare?
          ⟨.of "articles" "title", "title", .string, false, false⟩
          ⟨.holds .atStart true false, some (.string "ΟΔΟΣ")⟩ = .ok (some e') ∧
        e'.Misses Engine.texts e (.of "articles" "title")) ∧
      ∃ e, searchPredicate? "articles" (Text.trim " Tea") ⟨"title", .string, [], none⟩ = some e ∧
        ∀ (db : Database Engine.texts) (tables : Tables Engine.texts),
          (Expr.of "articles" "title").value db [] tables = Engine.texts.text "Teapots" →
          e.truthOn db tables = .yes := by
  obtain ⟨hcompared, hsearched⟩ := coarser_unless_exposed readsTexts_texts comparesTexts_texts
    (Schema.blog.context {} Alias.sequential)
  have hcolumn : ((Schema.blog.context {} Alias.sequential).column {} "articles" ["title"]).Gives 0
      ⟨.of "articles" "title", "title", .string, false, false⟩ 0 := rfl
  obtain ⟨-, hholds⟩ := hcompared hcolumn (.string "ΟΔΟΣ") rfl
  obtain ⟨e, e', he, he', hcovers, -⟩ := hholds .atEnd (by decide +kernel) rfl
  obtain ⟨f, f', hf, hf', -, hmisses⟩ := hholds .atStart (by decide +kernel) rfl
  obtain ⟨g, hg, hfound, -⟩ := hsearched "articles" " Tea" ⟨"title", .string, [], none⟩ rfl rfl rfl
  exact ⟨⟨e, e', he, he', hcovers (by decide +kernel)⟩,
    ⟨f, f', hf, hf', hmisses (by decide +kernel)⟩,
    ⟨g, hg, fun db tables hs => hfound (by decide +kernel) db tables _ hs (by decide +kernel)⟩⟩

/-- One article with a title. -/
def Database.titled (title : String) : Database Engine.texts
  | "articles" =>
    [fun column => ([("id", .int 1), ("title", .string title)].lookup column : Option Literal)]
  | _ => []

/-- Articles of which the title holds a text. -/
def Request.looking (ignoreCase : Bool) (v : String) : Request where
  filter := some (.of (.field "title"
    (.compare [⟨.holds .anywhere ignoreCase false, some (.string v)⟩])))

/-- The final sigma of a text is none where the title goes on: the article is found by the text if
case counts, but neither if it does not nor by a search. -/
theorem unfound_sigma_blog :
    Engine.texts.ReadsTexts ∧ Engine.texts.ComparesTexts ∧
      Text.isLiteral "ΑΣ" = true ∧ Placement.anywhere.Holds "ΑΣ" "ΑΣΑ" ∧
      ∃ q q' searched,
        (Schema.blog.compiler {} fun _ => 0).compile "articles" (.looking false "ΑΣ") = .ok q ∧
        (Schema.blog.compiler {} fun _ => 0).compile "articles" (.looking true "ΑΣ") = .ok q' ∧
        (Schema.blog.compiler {} fun _ => 0).compile "articles" { search := some "ΑΣ" } =
          .ok searched ∧
        (q.output (Database.titled "ΑΣΑ") []).length = 1 ∧
        q'.output (Database.titled "ΑΣΑ") [] = [] ∧
        searched.output (Database.titled "ΑΣΑ") [] = [] := by
  obtain ⟨q, hq, hfound⟩ : ∃ q,
      (Schema.blog.compiler {} fun _ => 0).compile "articles" (.looking false "ΑΣ") = .ok q ∧
        (q.output (Database.titled "ΑΣΑ") []).length = 1 :=
    Compiler.exists_compile_with (by decide +kernel)
  obtain ⟨q', hq', hmissed⟩ : ∃ q,
      (Schema.blog.compiler {} fun _ => 0).compile "articles" (.looking true "ΑΣ") = .ok q ∧
        (q.output (Database.titled "ΑΣΑ") []).length = 0 :=
    Compiler.exists_compile_with (by decide +kernel)
  obtain ⟨searched, hsearched, hmissed'⟩ : ∃ q,
      (Schema.blog.compiler {} fun _ => 0).compile "articles" { search := some "ΑΣ" } = .ok q ∧
        (q.output (Database.titled "ΑΣΑ") []).length = 0 :=
    Compiler.exists_compile_with (by decide +kernel)
  exact ⟨readsTexts_texts, comparesTexts_texts, by decide +kernel, by decide +kernel, q, q',
    searched, hq, hq', hsearched, hfound, List.length_eq_zero_iff.mp hmissed,
    List.length_eq_zero_iff.mp hmissed'⟩

end JsonSql
