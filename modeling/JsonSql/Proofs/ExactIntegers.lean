import JsonSql.Proofs.IgnoredCase
import JsonSql.Proofs.WrittenNumbers
import JsonSql.Sql.Render
import Mathlib.Data.List.Forall2

set_option autoImplicit false

/-!
# Integers in comparisons

An integer that a request compares a column of integers with is given as a number or as its numeral,
alone or among others.  The literal that stands for it denotes the integer itself where that has 64
bits with its sign.  A greater integer becomes the nearest binary64 number, and its literal denotes
a decimal that is read back as this number (`compares_integers`).
-/

namespace JsonSql

open JsonSql.Decimal
open JsonSql.Sql

/-! ## Binary64 numbers of integers -/

namespace Decimal

theorem exists_ofInt_eq {n : Int} (hpos : 0 ≤ n) (h : n < nat64Limit) :
    ∃ x, Binary64.ofInt n = .finite x := by
  rw [Binary64.ofInt, roundRatio, ofWord, dif_pos (nearestWord_lt (by omega))]
  exact ⟨_, rfl⟩

end Decimal

/-! ## Values that give integers -/

/-- A value gives an integer: as a number, or as a numeral that may have blanks around it. -/
inductive Json.GivesInt (n : Int) : Json → Prop
  | number : GivesInt n (.number (.int n))
  | numeral {s : String} : readInt? (Text.trim s) = some n → GivesInt n (.string s)

/-- A value gives integers to an operator: one value gives one, and for operators that take several
a list gives one with each item, and a text with each piece between commas. -/
inductive Json.GivesInts : Arity → List Int → Json → Prop
  | one {n : Int} {value : Json} : value.GivesInt n → GivesInts .single [n] value
  | number {arity : Arity} {n : Int} : GivesInts arity [n] (.number (.int n))
  | list {arity : Arity} {ns : List Int} {items : List Json} : arity = .list ∨ arity = .pair →
      List.Forall₂ Json.GivesInt ns items → GivesInts arity ns (.array items)
  | text {arity : Arity} {ns : List Int} {s : String} : arity = .list ∨ arity = .pair →
      List.Forall₂ (fun n piece => readInt? (Text.trim piece) = some n) ns (Text.split ',' s) →
      GivesInts arity ns (.string s)

namespace Sql.Literal

variable {d : Dialect} {n : Int}

/-- The literal of an integer. -/
def ofInteger (n : Int) : Literal := ofNumber (.int n)

/-- A numeral is read as an integer if that has 64 bits with its sign, and otherwise as its nearest
binary64 number. -/
theorem read_of_readInt? (hn : Json.KeepsInt n) {s : String} (h : readInt? s = some n) :
    (n < int64Limit ∧ readInt64? s = some n) ∨
      ∃ x, ¬n < int64Limit ∧ readInt64? s = none ∧ readFinite? s = some x ∧
        Binary64.ofInt n = .finite x := by
  obtain ⟨hlow, hhigh⟩ := hn
  have hlimit : 0 < int64Limit := by decide
  by_cases hfits : n < int64Limit
  · refine .inl ⟨hfits, ?_⟩
    rw [readInt64?, h, Option.filter_some, if_pos (decide_eq_true ⟨hlow, hfits⟩)]
  · obtain ⟨x, hx⟩ := exists_ofInt_eq (n := n) (by omega) hhigh
    refine .inr ⟨x, hfits, ?_, ?_, hx⟩
    · rw [readInt64?, h, Option.filter_some, if_neg (by simp [FitsInt64, hfits])]
    · rw [readFinite?, readBinary64?_of_readInt? h (by omega) hhigh, hx]

theorem ofNumeral_of_readInt? (hn : Json.KeepsInt n) {s : String}
    (h : readInt? (Text.trim s) = some n) : ofNumeral s = ofInteger n := by
  unfold ofInteger ofNumber
  dsimp only
  rcases read_of_readInt? hn h with ⟨hfits, hread⟩ | ⟨x, hfits, hread, hfinite, hx⟩
  · rw [ofNumeral, hread, if_pos hfits]
  · rw [ofNumeral, hread, hfinite, if_neg hfits, hx]

theorem ofJson_of_givesInt (hn : Json.KeepsInt n) {value : Json} (h : value.GivesInt n) :
    ofJson d .number value = ofInteger n := by
  cases h with
  | number => rfl
  | numeral hread => exact ofNumeral_of_readInt? hn hread

/-- Integers become their literals, one by one. -/
theorem list_of_givesInts {arity : Arity} {ns : List Int} {value : Json}
    (hns : ∀ n ∈ ns, Json.KeepsInt n) (h : value.GivesInts arity ns) :
    list d .number arity value = ns.map ofInteger := by
  have hitems {items : List Json} {ns : List Int} (hns : ∀ n ∈ ns, Json.KeepsInt n)
      (h : List.Forall₂ Json.GivesInt ns items) :
      (items.filter fun item => !item.isNull).map (ofJson d .number) = ns.map ofInteger := by
    induction h with
    | nil => rfl
    | @cons n item ns items hitem _ ih =>
      obtain ⟨hn, hns⟩ := List.forall_mem_cons.mp hns
      have hnull : item.isNull = false := by cases hitem <;> rfl
      rw [List.filter_cons_of_pos (by rw [hnull]; rfl), List.map_cons, List.map_cons, ih hns,
        ofJson_of_givesInt hn hitem]
  cases h with
  | @one n value hvalue =>
    have hone := hitems hns (.cons hvalue .nil)
    cases hvalue <;> exact hone
  | @number _ n =>
    have hone := hitems hns (.cons .number .nil)
    cases arity <;> exact hone
  | list harity hlist =>
    rcases harity with rfl | rfl <;> exact hitems hns hlist
  | @text _ ns s harity hpieces =>
    have hlist : List.Forall₂ Json.GivesInt ns
        ((Text.split ',' s).map fun piece => Json.string (Text.trim piece)) := by
      rw [List.forall₂_map_right_iff]
      exact hpieces.imp fun n piece h => .numeral (by rwa [Text.trim_trim])
    rcases harity with rfl | rfl <;> exact hitems hns hlist

/-! ## What literals tell -/

/-- The text of a literal tells an integer.  An integer of 64 bits with its sign is denoted by the
text.  A greater one has the text of its nearest binary64 number, which is read back as that. -/
def Tells (d : Dialect) (n : Int) (x : Literal) : Prop :=
  if n < int64Limit then numberValue? ((Expr.literal x).sql d).toList = some (n : ℚ)
  else x = .float (.ofInt n) ∧ readBinary64? ((Expr.literal x).sql d) = some (.ofInt n)

theorem tells_ofInteger (d : Dialect) (hn : Json.KeepsInt n) : (ofInteger n).Tells d n := by
  obtain ⟨hlow, hhigh⟩ := hn
  have hlimit : 0 < int64Limit := by decide
  unfold Tells ofInteger ofNumber
  dsimp only
  by_cases hfits : n < int64Limit
  · rw [if_pos hfits, if_pos hfits]
    have htext : ((Expr.literal (.int n)).sql d).toList = (toString n).toList := by
      simp [Expr.sql, Expr.tokens, tokensText, token, Token.chars]
    rw [htext, numberValue?_intText]
  · obtain ⟨x, hx⟩ := exists_ofInt_eq (n := n) (by omega) hhigh
    rw [if_neg hfits, if_neg hfits, hx]
    have htext : (Expr.literal (.float (.finite x))).sql d = x.text .sql := by
      simp [Expr.sql, Expr.tokens, tokensText, token, Token.chars]
    exact ⟨rfl, by rw [htext, x.readBinary64?_text]⟩

end Sql.Literal

/-! ## Comparisons and searches -/

/-- A condition compares a column with literals. -/
inductive Sql.Expr.ComparesWith (column : Expr) : Expr → List Literal → Prop
  | one {op : BinaryOp} {x : Literal} : ComparesWith column (.binary op column (.literal x)) [x]
  | among {xs : List Literal} {negated : Bool} :
      ComparesWith column (.inList column (xs.map .literal) negated) xs
  | between {low high : Literal} {negated : Bool} :
      ComparesWith column (.between column (.literal low) (.literal high) negated) [low, high]

/-- The operators with values that integers admit. -/
theorem Operator.cases_of_isInteger {op : Operator} {type : FieldType}
    (htype : type.isInteger = true) (hadmitted : op.isAllowedFor type = true)
    (harity : op.arity ≠ .none) :
    (op.arity = .single ∧ op.ignoresCase = false ∧ ∀ place i n, op ≠ .holds place i n) ∨
      (∃ negated, op = .oneOf negated) ∨ ∃ negated, op = .between negated := by
  have hall : type = .integer ∨ type = .bigInteger := by
    cases type <;> first | exact .inl rfl | exact .inr rfl | cases htype
  have htext : type.isText = false := by rcases hall with rfl | rfl <;> rfl
  cases op with
  | equal ignoreCase negated =>
    cases ignoreCase with
    | false => exact .inl ⟨rfl, rfl, nofun⟩
    | true =>
      rw [Operator.isText_of_ignoresCase rfl hadmitted] at htext
      cases htext
  | less | lessOrEqual | greater | greaterOrEqual => exact .inl ⟨rfl, rfl, nofun⟩
  | oneOf negated => exact .inr (.inl ⟨negated, rfl⟩)
  | between negated => exact .inr (.inr ⟨negated, rfl⟩)
  | null negated | empty negated => exact absurd rfl harity
  | holds place ignoreCase negated =>
    rcases hall with rfl | rfl <;> cases place <;> cases ignoreCase <;> cases negated <;>
      cases hadmitted
  | intersects boxes negated =>
    rcases hall with rfl | rfl <;> cases boxes <;> cases negated <;> cases hadmitted

/-- The condition of an operator that integers admit. -/
theorem Operator.exists_predicate? {op : Operator} {type : FieldType}
    (htype : type.isInteger = true) (hadmitted : op.isAllowedFor type = true)
    (harity : op.arity ≠ .none) {xs : List Literal} (hone : op.arity = .single → xs.length = 1)
    (htwo : op.arity = .pair → xs.length = 2) (d : Dialect) (column : Expr) (kept : Bool) :
    ∃ e, op.predicate? d column xs kept = .ok (some e) ∧ Sql.Expr.ComparesWith column e xs := by
  rcases cases_of_isInteger htype hadmitted harity with ⟨hsingle, hcase, hholds⟩ | ⟨negated, rfl⟩ |
    ⟨negated, rfl⟩
  · obtain ⟨x, rfl⟩ := List.length_eq_one_iff.mp (hone hsingle)
    refine ⟨op.compareOne column x, ?_, ?_⟩
    · cases op <;> first | rfl | cases hsingle
    · have hcompare : op.compareOne column x = .binary op.binaryOp column (.literal x) := by
        cases op with
        | equal ignoreCase negated =>
          cases hcase
          rfl
        | holds place ignoreCase negated => exact absurd rfl (hholds place ignoreCase negated)
        | _ => rfl
      rw [hcompare]
      exact .one
  · exact ⟨_, rfl, .among⟩
  · obtain ⟨low, high, rfl⟩ := List.length_eq_two.mp (htwo rfl)
    exact ⟨_, rfl, .between⟩

theorem searchLiteral?_of_isInteger {type : FieldType} (htype : type.isInteger = true)
    {term : String} {n : Int} (hn : Json.KeepsInt n) (h : readInt? term = some n) :
    searchLiteral? type term = some (.ofInteger n) := by
  have hsearch : searchLiteral? type term = ((readInt64? term).map Literal.int <|>
      (readFinite? term).map fun x => .float (.finite x)) := by
    cases type <;> first | rfl | cases htype
  unfold Literal.ofInteger Literal.ofNumber
  dsimp only
  rcases Literal.read_of_readInt? hn h with ⟨hfits, hread⟩ | ⟨x, hfits, hread, hfinite, hx⟩
  · rw [hsearch, hread, if_pos hfits]
    rfl
  · rw [hsearch, hread, hfinite, if_neg hfits, hx]
    rfl

/--
The condition of a comparison with integers on a column of integers, by an operator that takes
values, and that of a search for an integer in a field of integers, compare the column with literals
that tell the integers in every dialect.
-/
theorem compares_integers (c : Context) :
    (∀ {hops : Hops} {collection : String} {path : List String} {column : Column} {k k' : Nat},
      (c.column hops collection path).Gives k column k' → column.type.isInteger = true →
      ∀ (op : Operator) (value : Json) (ns : List Int),
        Context.checkOperator column op = .ok () → op.arity ≠ .none →
        value.GivesInts op.arity ns → (op.arity = .pair → ns.length = 2) →
        (∀ n ∈ ns, Json.KeepsInt n) →
        ∃ e xs, c.compare? column ⟨op, some value⟩ = .ok (some e) ∧
          Sql.Expr.ComparesWith column.expr e xs ∧
          List.Forall₂ (fun n x => ∀ d : Dialect, Literal.Tells d n x) ns xs) ∧
      ∀ (collection term : String) (f : Field) (n : Int), f.isAlias = false →
        f.isConcealed = false → f.type.isInteger = true →
        readInt? (Text.trim term) = some n → Json.KeepsInt n →
        ∃ e x, searchPredicate? collection (Text.trim term) f = some e ∧
          Sql.Expr.ComparesWith (.of collection f.name) e [x] ∧
          ∀ d : Dialect, Literal.Tells d n x := by
  have hkind {type : FieldType} (htype : type.isInteger = true) : type.valueKind = .number := by
    cases type <;> first | rfl | cases htype
  refine ⟨fun {hops collection path column k k'} hcolumn htype op value ns hadmitted harity hvalue
    hpair hns => ?_, fun collection term f n halias hconcealed htype hterm hn => ?_⟩
  · have hlist : Literal.list c.dialect column.valueKind op.arity value =
        ns.map Literal.ofInteger := by
      rw [Context.valueKind_of_column hcolumn, hkind htype]
      exact Literal.list_of_givesInts hns hvalue
    have hone : op.arity = .single → (ns.map Literal.ofInteger).length = 1 := by
      intro hsingle
      rw [hsingle] at hvalue
      cases hvalue with
      | one | number => rfl
      | list hseveral | text hseveral => rcases hseveral with h | h <;> cases h
    obtain ⟨e, he, hcompares⟩ := Operator.exists_predicate? htype
      (Context.isAllowedFor_of_checkOperator hadmitted) harity hone
      (fun h => (List.length_map _).trans (hpair h)) c.dialect column.expr
      (leavesOperator (some value))
    refine ⟨e, ns.map Literal.ofInteger, ?_, hcompares, ?_⟩
    · simp only [Context.compare?, hadmitted, hlist, Option.isNone_some, Bool.false_eq_true,
        and_false, if_false]
      exact he
    · rw [List.forall₂_map_right_iff, List.forall₂_same]
      exact fun n hn d => Literal.tells_ofInteger d (hns n hn)
  · have htext : f.type.isText = false := by
      cases htype' : f.type <;> rw [htype'] at htype <;> first | rfl | cases htype
    refine ⟨.equals (.of collection f.name) (.literal (.ofInteger n)), .ofInteger n, ?_, .one,
      fun d => Literal.tells_ofInteger d hn⟩
    rw [searchPredicate?, halias, hconcealed, htext, searchLiteral?_of_isInteger htype hn hterm]
    rfl

theorem compares_integers_blog :
    (∃ e xs, (Schema.blog.context {} Alias.sequential).compare?
        ⟨.of "articles" "id", "id", .integer, false, false⟩
        ⟨.between false, some (.string "-9223372036854775808, 18446744073709551615")⟩ =
          .ok (some e) ∧
        Sql.Expr.ComparesWith (.of "articles" "id") e xs ∧
        List.Forall₂ (fun n x => ∀ d : Dialect, Literal.Tells d n x)
          [-9223372036854775808, 18446744073709551615] xs) ∧
      ∃ e x, searchPredicate? "articles" (Text.trim " 007 ") ⟨"id", .integer, [], none⟩ = some e ∧
        Sql.Expr.ComparesWith (.of "articles" "id") e [x] ∧
        ∀ d : Dialect, Literal.Tells d 7 x := by
  obtain ⟨hcompared, hsearched⟩ :=
    compares_integers (Schema.blog.context {} Alias.sequential)
  have hcolumn : ((Schema.blog.context {} Alias.sequential).column {} "articles" ["id"]).Gives 0
      ⟨.of "articles" "id", "id", .integer, false, false⟩ 0 := rfl
  have hrange : ∀ n ∈ [-9223372036854775808, 18446744073709551615], Json.KeepsInt n := by
    unfold Json.KeepsInt
    decide
  have hpieces : Text.split ',' "-9223372036854775808, 18446744073709551615" =
      ["-9223372036854775808", " 18446744073709551615"] := by decide +kernel
  refine ⟨hcompared hcolumn rfl (.between false) _ _ rfl nofun (.text (.inr rfl) ?_) (fun _ => rfl)
    hrange, ?_⟩
  · rw [hpieces]
    exact .cons (by decide +kernel) (.cons (by decide +kernel) .nil)
  · exact hsearched "articles" " 007 " ⟨"id", .integer, [], none⟩ 7 rfl rfl rfl
      (by decide +kernel) (by unfold Json.KeepsInt; decide)

/-- An integer that is one greater than a power of two is compared as the decimal of the power. -/
theorem compares_another_integer_blog :
    Json.KeepsInt 9223372036854775809 ∧
      (Json.number (.int 9223372036854775809)).GivesInt 9223372036854775809 ∧
      (Json.string "9223372036854775809").GivesInt 9223372036854775809 ∧
      ∃ x, (∀ value, value ∈ [Json.number (.int 9223372036854775809),
            Json.string "9223372036854775809"] →
          (Schema.blog.context {} Alias.sequential).compare?
            ⟨.of "articles" "id", "id", .integer, false, false⟩
            ⟨.equal false false, some value⟩ =
              .ok (some (.equals (.of "articles" "id") (.literal x)))) ∧
        searchPredicate? "articles" (Text.trim "9223372036854775809")
          ⟨"id", .integer, [], none⟩ = some (.equals (.of "articles" "id") (.literal x)) ∧
        numberValue? ((Expr.literal x).sql .postgres).toList = some 9223372036854776000 ∧
        (9223372036854776000 : ℚ) ≠ ((9223372036854775809 : Int) : ℚ) := by
  have hread : readInt? (Text.trim "9223372036854775809") = some 9223372036854775809 := by
    decide +kernel
  have hkeeps : Json.KeepsInt 9223372036854775809 := by
    unfold Json.KeepsInt
    decide
  refine ⟨hkeeps, .number, .numeral hread, .ofInteger 9223372036854775809, fun value hvalue => ?_,
    ?_, by decide +kernel, by norm_num⟩
  · have hgives : value.GivesInt 9223372036854775809 := by
      simp only [List.mem_cons, List.not_mem_nil, or_false] at hvalue
      rcases hvalue with rfl | rfl
      · exact .number
      · exact .numeral hread
    have hlist := Literal.list_of_givesInts (d := .postgres)
      (List.forall_mem_singleton.mpr hkeeps) (.one hgives)
    change (do
      let values := Literal.list .postgres .number .single value
      Operator.predicate? (.equal false false) .postgres (.of "articles" "id") values
        (leavesOperator (some value))) = _
    rw [hlist]
    rfl
  · rw [searchPredicate?, searchLiteral?_of_isInteger rfl hkeeps hread]
    rfl

end JsonSql
