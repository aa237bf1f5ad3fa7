import JsonSql.Proofs.Quoting

set_option autoImplicit false

/-!
# Row windows in five dialects

What the row window at the end of a statement says to each dialect: the text of a window reads as
words and counts, and a dialect that accepts them keeps the rows that the window asks for.  Two
windows are written that are refused: an offset alone in SQLite, and no rows at all in T-SQL.
-/

namespace JsonSql.Sql

/-! ## Rows that are kept -/

/-- The part of a result that is kept: the rows behind the first `skipped`, at most `most` of
them. -/
structure Cut where
  skipped : Nat
  most : Option Nat
  deriving DecidableEq, Repr

/-- The rows of a result that are kept. -/
def Cut.rows {α : Type} (c : Cut) (rows : List α) : List α :=
  match c.most with
  | none => rows.drop c.skipped
  | some n => (rows.drop c.skipped).take n

/-- A count of rows as far as it can be written. -/
def writtenCount (n : Nat) : Nat := min n (Decimal.int64Limit - 1)

/-- What a window asks to be kept. -/
def Window.cut (w : Window) : Cut := ⟨writtenCount (w.offset.getD 0), w.limit.map writtenCount⟩

/-! ## Windows that dialects accept -/

/-- The greatest count of rows that a dialect reads. -/
def Dialect.maxCount : Dialect → Nat
  | .mysql => Decimal.nat64Limit - 1
  | _ => Decimal.int64Limit - 1

/-- A word and a count behind it. -/
def counted (word : String) (n : Nat) : List Lexeme := [.word word, .number (toString n)]

/-- The row windows that a dialect accepts, behind an ordering or without one, and what it keeps
for them.  An offset may stand alone in PostgreSQL and DuckDB only; T-SQL skips rows of an ordering,
and fetches one or more. -/
inductive Dialect.AcceptsWindow (d : Dialect) (ordered : Bool) : List Lexeme → Cut → Prop
  | limit {n : Nat} : d ≠ .tsql → n ≤ d.maxCount →
      AcceptsWindow d ordered (counted "LIMIT" n) ⟨0, some n⟩
  | limitOffset {n m : Nat} : d ≠ .tsql → n ≤ d.maxCount → m ≤ d.maxCount →
      AcceptsWindow d ordered (counted "LIMIT" n ++ counted "OFFSET" m) ⟨m, some n⟩
  | offset {m : Nat} : d = .postgres ∨ d = .duckdb → m ≤ d.maxCount →
      AcceptsWindow d ordered (counted "OFFSET" m) ⟨m, none⟩
  | rows {m : Nat} : d = .tsql → ordered = true → m ≤ d.maxCount →
      AcceptsWindow d ordered (counted "OFFSET" m ++ [.word "ROWS"]) ⟨m, none⟩
  | fetch {m n : Nat} : d = .tsql → ordered = true → m ≤ d.maxCount → 1 ≤ n → n ≤ d.maxCount →
      AcceptsWindow d ordered
        (counted "OFFSET" m ++ [.word "ROWS", .word "FETCH"] ++ counted "NEXT" n ++
          [.word "ROWS", .word "ONLY"])
        ⟨m, some n⟩

/-- Expressions to order by, on a line of their own, or none at all. -/
inductive IsOrdering : Bool → List Token → Prop
  | none : IsOrdering false []
  | some {items : List (List Token)} : items ≠ [] →
      IsOrdering true (clauseTokens .orderBy (commaList items))

/-! ## Lexemes of windows -/

section Lexemes

variable {d : Dialect}

theorem writtenCount_le (n : Nat) : writtenCount n ≤ d.maxCount := by
  have hwritten : writtenCount n ≤ Decimal.int64Limit - 1 := Nat.min_le_right _ _
  have hread : Decimal.int64Limit - 1 ≤ d.maxCount := by cases d <;> decide
  exact Nat.le_trans hwritten hread

theorem lexemes_space : Token.space.lexemes d = [] := by
  cases d <;> rfl

theorem lexemes_keyword {word : Keyword} (h : IsWord word.text.toList) :
    (Token.keyword word).lexemes d = [.word word.text] := by
  have hread : ReadsWhole d word.text.toList _ := readsWhole_word h
  show (d.lex? word.text.toList).getD [] = _
  rw [hread.lex?_eq, String.ofList_toList]
  rfl

theorem lexemes_fetchNext :
    (Token.keyword .fetchNext).lexemes d = [.word "FETCH", .word "NEXT"] := by
  have hfetch : IsWord "FETCH".toList := by decide
  have hnext : IsWord "NEXT".toList := by decide
  have hread : ReadsWhole d ("FETCH".toList ++ ' ' :: "NEXT".toList) _ :=
    (readsWhole_word hfetch).blank (readsWhole_word hnext)
  show (d.lex? ("FETCH".toList ++ ' ' :: "NEXT".toList)).getD [] = _
  rw [hread.lex?_eq]
  rfl

/-- A count is read as it is written. -/
theorem lexemes_rowCount (n : Nat) :
    (rowCount n).lexemes d = [.number (toString (writtenCount n))] := by
  have hread : ReadsWhole d (toString (writtenCount n)).toList _ :=
    readsWhole_number (isNumeral_natText (writtenCount n))
  show (d.lex? (toString (writtenCount n)).toList).getD [] = _
  rw [hread.lex?_eq, String.ofList_toList]
  rfl

theorem lexemes_unboundedLimit :
    (Token.raw unboundedLimit).lexemes d = [.number (toString (Decimal.nat64Limit - 1))] := by
  have hread : ReadsWhole d unboundedLimit.toList _ := readsWhole_number (.ofAll rfl)
  show (d.lex? unboundedLimit.toList).getD [] = _
  rw [hread.lex?_eq, String.ofList_toList]
  rfl

/-- A word and a count, as a window is written with. -/
theorem lexemes_counted {word : Keyword} (h : IsWord word.text.toList) (n : Nat) :
    [Token.keyword word, .space, rowCount n].flatMap (Token.lexemes d) =
      counted word.text (writtenCount n) := by
  simp [lexemes_keyword h, lexemes_space, lexemes_rowCount, counted]

/-- The spaces between the parts of a window are not read. -/
theorem lexemes_separated (items : List (List Token)) :
    (separated [.space] items).flatMap (Token.lexemes d) =
      items.flatMap fun item => item.flatMap (Token.lexemes d) := by
  induction items with
  | nil => rfl
  | cons item rest ih =>
    cases rest with
    | nil => simp [separated]
    | cons next more =>
      rw [separated, List.flatMap_append, List.flatMap_append, ih, List.flatMap_cons]
      · simp [lexemes_space]
      · exact List.cons_ne_nil next more

theorem lexemes_standardTokens (w : Window) :
    w.standardTokens.flatMap (Token.lexemes d) =
      (w.limit.toList.flatMap fun n => counted "LIMIT" (writtenCount n)) ++
        w.offset.toList.flatMap fun m => counted "OFFSET" (writtenCount m) := by
  have hlimit (n : Nat) :
      [Token.keyword .limit, .space, rowCount n].flatMap (Token.lexemes d) = _ :=
    lexemes_counted (by decide) n
  have hoffset (m : Nat) :
      [Token.keyword .offset, .space, rowCount m].flatMap (Token.lexemes d) = _ :=
    lexemes_counted (by decide) m
  rw [Window.standardTokens, lexemes_separated, List.flatMap_append, Window.limitPart,
    Window.offsetPart, List.flatMap_map, List.flatMap_map]
  simp only [hlimit, hoffset]
  rfl

/-- The words and the counts of a window in T-SQL. -/
def fetched (m : Nat) : Option Nat → List Lexeme
  | none => counted "OFFSET" m ++ [.word "ROWS"]
  | some n =>
    counted "OFFSET" m ++ [.word "ROWS", .word "FETCH"] ++ counted "NEXT" n ++
      [.word "ROWS", .word "ONLY"]

theorem lexemes_fetchTokens (w : Window) :
    w.fetchTokens.flatMap (Token.lexemes d) =
      fetched (writtenCount (w.offset.getD 0)) (w.limit.map writtenCount) := by
  have hoffset : (Token.keyword .offset).lexemes d = _ := lexemes_keyword (by decide)
  have hrows : (Token.keyword .rows).lexemes d = _ := lexemes_keyword (by decide)
  have honly : (Token.keyword .only).lexemes d = _ := lexemes_keyword (by decide)
  obtain ⟨limit, offset⟩ := w
  cases limit <;>
    simp [Window.fetchTokens, fetched, lexemes_space, lexemes_rowCount, lexemes_fetchNext, hoffset,
      hrows, honly, counted, Keyword.text]

/-- A window that MySQL writes without a limit has the greatest one. -/
theorem lexemes_offset_mysql (m : Nat) :
    (Window.tokens .mysql ⟨none, some m⟩).flatMap (Token.lexemes .mysql) =
      counted "LIMIT" (Decimal.nat64Limit - 1) ++ counted "OFFSET" (writtenCount m) := by
  have hlimit : (Token.keyword .limit).lexemes .mysql = _ := lexemes_keyword (by decide)
  have hoffset : (Token.keyword .offset).lexemes .mysql = _ := lexemes_keyword (by decide)
  simp [Window.tokens, lexemes_space, lexemes_rowCount, lexemes_unboundedLimit, hlimit, hoffset,
    counted, Keyword.text]

end Lexemes

/-! ## Windows that are accepted -/

section Accepted

variable {d : Dialect} {ordered : Bool} {w : Window}

/-- A window that a dialect does not accept as it is written: it has to count the rows that it
keeps, or to keep some. -/
def Window.IsRefusedBy (w : Window) (d : Dialect) : Prop :=
  d = .sqlite ∧ w.limit = none ∨ d = .tsql ∧ w.limit = some 0

theorem toString_nat_injective : Function.Injective (toString : Nat → String) := by
  intro m n h
  have hdigits : Nat.toDigits 10 m = Nat.toDigits 10 n := by
    rw [← natText_toList, ← natText_toList, h]
  rw [← Nat.ofDigitChars_ten_toDigits (n := m), hdigits, Nat.ofDigitChars_ten_toDigits]

/-- An offset alone is accepted by none but PostgreSQL and DuckDB. -/
theorem not_acceptsWindow_offset {m : Nat} {cut : Cut} (hd : d ≠ .postgres) (hd' : d ≠ .duckdb) :
    ¬d.AcceptsWindow ordered (counted "OFFSET" m) cut := by
  intro h
  generalize hwords : counted "OFFSET" m = words at h
  cases h with
  | offset hone => exact hone.elim hd hd'
  | limit | limitOffset | rows | fetch => simp [counted] at hwords

/-- T-SQL does not fetch no rows. -/
theorem not_acceptsWindow_fetch {m : Nat} {cut : Cut} :
    ¬Dialect.tsql.AcceptsWindow ordered (fetched m (some 0)) cut := by
  intro h
  generalize hwords : fetched m (some 0) = words at h
  cases h with
  | limit hd | limitOffset hd => exact hd rfl
  | offset hone => exact hone.elim nofun nofun
  | rows => simp [fetched, counted] at hwords
  | @fetch _ n _ _ _ hsome _ =>
    have hzero : toString 0 = toString n := (by simpa [fetched, counted] using hwords : _ ∧ _).2
    rw [← toString_nat_injective hzero] at hsome
    exact absurd hsome (by decide)

theorem writtenCount_pos {n : Nat} (h : n ≠ 0) : 1 ≤ writtenCount n := by
  have hlimit : 1 ≤ Decimal.int64Limit - 1 := by decide
  exact Nat.le_min.mpr ⟨Nat.pos_of_ne_zero h, hlimit⟩

/-- A window that is not refused is read as what it asks for. -/
theorem exists_acceptsWindow (hw : w ≠ {}) (hordered : d = .tsql → ordered = true)
    (h : ¬w.IsRefusedBy d) :
    ∃ cut, d.AcceptsWindow ordered ((w.tokens d).flatMap (Token.lexemes d)) cut ∧
      ∀ {α : Type} (rows : List α),
        (d = .mysql → w.limit = none → rows.length < Decimal.nat64Limit) →
          cut.rows rows = w.cut.rows rows := by
  have hcount (n : Nat) : writtenCount n ≤ d.maxCount := writtenCount_le n
  have hzero : writtenCount 0 = 0 := rfl
  obtain ⟨limit, offset⟩ := w
  by_cases htsql : d = .tsql
  · subst htsql
    rw [Window.tokens, lexemes_fetchTokens]
    refine ⟨Window.cut ⟨limit, offset⟩, ?_, fun _ _ => rfl⟩
    cases limit with
    | none =>
      exact .rows rfl (hordered rfl) (hcount _)
    | some n =>
      have hsome : n ≠ 0 := fun hn => h (.inr ⟨rfl, congrArg some hn⟩)
      exact .fetch rfl (hordered rfl) (hcount _) (writtenCount_pos hsome) (hcount n)
  · cases limit with
    | some n =>
      have htokens : (Window.tokens d ⟨some n, offset⟩).flatMap (Token.lexemes d) =
          counted "LIMIT" (writtenCount n) ++
            offset.toList.flatMap fun m => counted "OFFSET" (writtenCount m) := by
        cases d with
        | tsql => exact absurd rfl htsql
        | postgres | mysql | sqlite | duckdb => exact (lexemes_standardTokens _).trans (by simp)
      refine ⟨Window.cut ⟨some n, offset⟩, ?_, fun _ _ => rfl⟩
      rw [htokens]
      cases offset with
      | none =>
        rw [Option.toList_none, List.flatMap_nil, List.append_nil]
        exact .limit htsql (hcount n)
      | some m =>
        rw [Option.toList_some, List.flatMap_singleton]
        exact .limitOffset htsql (hcount n) (hcount m)
    | none =>
      obtain ⟨m, rfl⟩ : ∃ m, offset = some m := by
        cases offset with
        | none => exact absurd rfl hw
        | some m => exact ⟨m, rfl⟩
      cases d with
      | tsql => exact absurd rfl htsql
      | sqlite => exact absurd (.inl ⟨rfl, rfl⟩) h
      | postgres | duckdb =>
        refine ⟨Window.cut ⟨none, some m⟩, ?_, fun _ _ => rfl⟩
        rw [Window.tokens, lexemes_standardTokens, Option.toList_none, List.flatMap_nil,
          List.nil_append, Option.toList_some, List.flatMap_singleton]
        exact .offset (by simp) (hcount m)
      | mysql =>
        refine ⟨⟨writtenCount m, some (Decimal.nat64Limit - 1)⟩, ?_, fun rows hrows => ?_⟩
        · rw [lexemes_offset_mysql]
          exact .limitOffset htsql (Nat.le_refl _) (hcount m)
        · have hall : (rows.drop (writtenCount m)).length ≤ Decimal.nat64Limit - 1 := by
            have hless := hrows rfl rfl
            rw [List.length_drop]
            omega
          exact List.take_of_length_le hall

/-- A window that is refused is not read at all. -/
theorem not_acceptsWindow (hw : w ≠ {}) (h : w.IsRefusedBy d) (cut : Cut) :
    ¬d.AcceptsWindow ordered ((w.tokens d).flatMap (Token.lexemes d)) cut := by
  obtain ⟨limit, offset⟩ := w
  rcases h with ⟨rfl, hlimit⟩ | ⟨rfl, hlimit⟩
  · obtain rfl : limit = none := hlimit
    cases offset with
    | none => exact absurd rfl hw
    | some m =>
      rw [Window.tokens, lexemes_standardTokens, Option.toList_none, List.flatMap_nil,
        List.nil_append, Option.toList_some, List.flatMap_singleton]
      exact not_acceptsWindow_offset (by decide) (by decide)
  · obtain rfl : limit = some 0 := hlimit
    rw [Window.tokens, lexemes_fetchTokens]
    exact not_acceptsWindow_fetch

end Accepted

/-! ## Windows of statements -/

section Statements

variable {d : Dialect}

/-- A statement with a window is the one without, its ordering, and the window on a line of its
own. -/
theorem tokens_windowed (q : Query) (w : Window) :
    ({ q with window := some w } : Query).tokens d =
      ({ q with orders := [], window := none } : Query).tokens d ++
        (orderTokens d true (orderItemTokens d q.orders) ++ windowTokens d (some w)) := by
  obtain ⟨items, source, joins, condition, groups, orders, window⟩ := q
  simp [Query.tokens, windowTokens, orderTokens, orderItemTokens]

/-- What stands between the two is an ordering wherever the dialect wants one. -/
theorem isOrdering_orderTokens (orders : List OrderItem) :
    ∃ ordered, IsOrdering ordered (orderTokens d true (orderItemTokens d orders)) ∧
      (d = .tsql → ordered = true) := by
  cases orders with
  | cons order rest =>
    refine ⟨true, ?_, fun _ => rfl⟩
    rw [orderItemTokens]
    exact .some (List.cons_ne_nil _ _)
  | nil =>
    rw [orderItemTokens]
    by_cases htsql : d = .tsql
    · refine ⟨true, ?_, fun _ => rfl⟩
      subst htsql
      show IsOrdering true (clauseTokens .orderBy
        (commaList [parenthesized [.keyword .select, .space, .keyword .null]]))
      exact .some (List.cons_ne_nil _ _)
    · refine ⟨false, ?_, fun h => absurd h htsql⟩
      rw [orderTokens, Dialect.windowNeedsOrder, decide_eq_false htsql]
      exact .none

/-- The text of a window is read as its lexemes. -/
theorem lex?_window (w : Window) :
    d.lex? (tokensText d (windowTokens d (some w))).toList =
      some ((w.tokens d).flatMap (Token.lexemes d)) := by
  have hnewline : Token.newline.lexemes d = [] := by cases d <;> rfl
  have hread := (tidyTail_windowTokens d (some w)).tidy.lex?_eq (d := d)
    (isKnown_windowTokens d (some w))
  rwa [windowTokens, List.flatMap_cons, hnewline, List.nil_append] at hread

end Statements

/-- A row window is written behind an ordering wherever the dialect wants one, and the dialect
accepts it as it is written and keeps the rows that are asked for: those behind the offset, up to
the limit.  Two windows are refused: an offset alone in SQLite, and a limit of no rows in T-SQL.  In
MySQL, where an offset alone is written with the greatest limit, no result has more rows. -/
theorem window_accepted (d : Dialect) (q : Query) (w : Window) (hw : w ≠ {}) :
    ∃ ordered ordering lexemes,
      ({ q with window := some w } : Query).tokens d =
        ({ q with orders := [], window := none } : Query).tokens d ++
          (ordering ++ windowTokens d (some w)) ∧
      IsOrdering ordered ordering ∧
      d.lex? (tokensText d (windowTokens d (some w))).toList = some lexemes ∧
      (¬w.IsRefusedBy d → ∃ cut, d.AcceptsWindow ordered lexemes cut ∧
        ∀ {α : Type} (rows : List α),
          (d = .mysql → w.limit = none → rows.length < Decimal.nat64Limit) →
            cut.rows rows = w.cut.rows rows) ∧
      (w.IsRefusedBy d → ∀ cut, ¬d.AcceptsWindow ordered lexemes cut) := by
  obtain ⟨ordered, hordering, hordered⟩ := isOrdering_orderTokens (d := d) q.orders
  exact ⟨ordered, _, _, tokens_windowed q w, hordering, lex?_window w,
    exists_acceptsWindow hw hordered, not_acceptsWindow hw⟩

/-- Rows from the third on, in a dialect that wants a limit before an offset. -/
theorem window_accepted_mysql :
    ({ offset := some 2 } : Window) ≠ {} ∧ ¬Window.IsRefusedBy { offset := some 2 } .mysql ∧
      ∃ ordered cut,
        Dialect.mysql.AcceptsWindow ordered
          (counted "LIMIT" (Decimal.nat64Limit - 1) ++ counted "OFFSET" 2) cut ∧
        cut.rows [10, 20, 30, 40] = [30, 40] := by
  have hsome : ({ offset := some 2 } : Window) ≠ {} := by decide
  have hkept : ¬Window.IsRefusedBy { offset := some 2 } .mysql := by
    unfold Window.IsRefusedBy
    decide
  obtain ⟨ordered, ordering, lexemes, -, -, hread, haccepted, -⟩ :=
    window_accepted .mysql {} { offset := some 2 } hsome
  obtain ⟨cut, hcut, hrows⟩ := haccepted hkept
  rw [lex?_window, lexemes_offset_mysql, Option.some.injEq] at hread
  rw [← hread] at hcut
  exact ⟨hsome, hkept, ordered, cut, hcut, hrows [10, 20, 30, 40] fun _ _ => by decide⟩

end JsonSql.Sql

namespace JsonSql

open JsonSql.Sql

/-- SQLite refuses the statement of a request for the rows behind an offset, and T-SQL that of a
request for no rows. -/
theorem window_refused_blog :
    (∃ q, (Compiler.blog .sqlite).compile "articles" { limit := some (-1), offset := some 10 } =
        .ok q ∧
      q.window = some { offset := some 10 } ∧
      q.sql .sqlite = "SELECT\n  \"articles\".*\nFROM \"articles\"\nOFFSET 10") ∧
    (∀ ordered cut, ¬Dialect.sqlite.AcceptsWindow ordered
      ((Window.tokens .sqlite { offset := some 10 }).flatMap (Token.lexemes .sqlite)) cut) ∧
    (∃ q, (Compiler.blog .tsql).compile "articles" { limit := some 0 } = .ok q ∧
      q.window = some { limit := some 0 } ∧
      q.sql .tsql = "SELECT\n  [articles].*\nFROM [articles]\nORDER BY (SELECT NULL)\n" ++
        "OFFSET 0 ROWS FETCH NEXT 0 ROWS ONLY") ∧
    ∀ ordered cut, ¬Dialect.tsql.AcceptsWindow ordered
      ((Window.tokens .tsql { limit := some 0 }).flatMap (Token.lexemes .tsql)) cut := by
  obtain ⟨q, hq, hsqlite⟩ : ∃ q,
      (Compiler.blog .sqlite).compile "articles" { limit := some (-1), offset := some 10 } = .ok q ∧
      (q.window, q.sql .sqlite) =
        (some { offset := some 10 }, "SELECT\n  \"articles\".*\nFROM \"articles\"\nOFFSET 10") :=
    Compiler.exists_compile_with (by decide +kernel)
  obtain ⟨q', hq', htsql⟩ : ∃ q,
      (Compiler.blog .tsql).compile "articles" { limit := some 0 } = .ok q ∧
      (q.window, q.sql .tsql) = (some { limit := some 0 },
        "SELECT\n  [articles].*\nFROM [articles]\nORDER BY (SELECT NULL)\n" ++
          "OFFSET 0 ROWS FETCH NEXT 0 ROWS ONLY") :=
    Compiler.exists_compile_with (by decide +kernel)
  refine ⟨⟨q, hq, congrArg Prod.fst hsqlite, congrArg Prod.snd hsqlite⟩, fun _ cut => ?_,
    ⟨q', hq', congrArg Prod.fst htsql, congrArg Prod.snd htsql⟩, fun _ cut => ?_⟩
  · exact not_acceptsWindow (by decide) (.inl ⟨rfl, rfl⟩) cut
  · exact not_acceptsWindow (by decide) (.inr ⟨rfl, rfl⟩) cut

end JsonSql
