import JsonSql.Sql.Render

set_option autoImplicit false

/-!
# The layout of rendered tokens

`Tidy` describes the lists of tokens that rendering makes: names and words stand apart from each
other by blanks, commas or brackets, the dot stands only between the names of a qualified column,
and brackets come in pairs.  Expressions and queries are tidy (`Expr.tidy_tokens`,
`Query.tidy_tokens`), and what follows from the layout is proved by induction on it.
-/

namespace JsonSql.Sql

/-- Tokens that keep their neighbours apart. -/
def Token.isSeparator : Token → Bool
  | .space | .newline | .symbol .comma => true
  | .indent depth => depth ≠ 0
  | _ => false

/-- Brackets and the dot, which stand in a pattern of their own. -/
def Token.isMark : Token → Bool
  | .symbol .lparen | .symbol .rparen | .symbol .dot | .symbol .comma => true
  | _ => false

/-- Lists of tokens as rendering lays them out. -/
inductive Tidy : List Token → Prop
  | nil : Tidy []
  | token {t : Token} : t.isMark = false → Tidy [t]
  | column (table name : String) : Tidy [.ident table, .symbol .dot, .ident name]
  | allColumns (table : String) : Tidy [.ident table, .symbol .dot, .symbol .star]
  | apart {left right : List Token} {separator : Token} : Tidy left →
      separator.isSeparator = true → Tidy right → Tidy (left ++ separator :: right)
  | group {inner : List Token} : Tidy inner → Tidy (parenthesized inner)
  | call {t : Token} {inner : List Token} : t.isMark = false → Tidy inner →
      Tidy (t :: parenthesized inner)

/-- What may follow a tidy list without anything between them: nothing, or a separator and more. -/
inductive TidyTail : List Token → Prop
  | nil : TidyTail []
  | cons {separator : Token} {rest : List Token} : separator.isSeparator = true → Tidy rest →
      TidyTail (separator :: rest)

theorem Tidy.append {left right : List Token} (hl : Tidy left) (hr : TidyTail right) :
    Tidy (left ++ right) := by
  cases hr with
  | nil => rwa [List.append_nil]
  | cons hseparator hrest => exact .apart hl hseparator hrest

theorem TidyTail.append {left right : List Token} (hl : TidyTail left) (hr : TidyTail right) :
    TidyTail (left ++ right) := by
  cases hl with
  | nil => exact hr
  | cons hseparator hrest => exact .cons hseparator (hrest.append hr)

theorem TidyTail.tidy {ts : List Token} (h : TidyTail ts) : Tidy ts := by
  have := Tidy.nil.append h
  rwa [List.nil_append] at this

theorem Tidy.spaced {ts : List Token} (h : Tidy ts) : TidyTail (.space :: ts) := .cons rfl h

/-- A word and what follows it after a blank. -/
theorem Tidy.word {t : Token} {ts : List Token} (ht : t.isMark = false) (h : Tidy ts) :
    Tidy (t :: .space :: ts) :=
  (Tidy.token ht).append h.spaced

/-! ## Pieces of queries -/

theorem tidy_commaList {items : List (List Token)} (h : ∀ ts ∈ items, Tidy ts) :
    Tidy (commaList items) := by
  induction items with
  | nil => exact .nil
  | cons item rest ih =>
    cases rest with
    | nil => exact h item List.mem_cons_self
    | cons next rest =>
      have hrest := ih fun ts hts => h ts (List.mem_cons_of_mem _ hts)
      have htail : TidyTail ([.symbol .comma, .space] ++ commaList (next :: rest)) :=
        .cons rfl hrest.spaced.tidy
      have := (h item List.mem_cons_self).append htail
      rwa [← List.append_assoc] at this

theorem tidyTail_separated {items : List (List Token)} (h : ∀ ts ∈ items, TidyTail ts) :
    TidyTail (separated [.symbol .comma] items) := by
  induction items with
  | nil => exact .nil
  | cons item rest ih =>
    cases rest with
    | nil => exact h item List.mem_cons_self
    | cons next rest =>
      have hrest := ih fun ts hts => h ts (List.mem_cons_of_mem _ hts)
      have htail : TidyTail ([.symbol .comma] ++ separated [.symbol .comma] (next :: rest)) :=
        .cons rfl hrest.tidy
      have := (h item List.mem_cons_self).append htail
      rwa [← List.append_assoc] at this

theorem tidyTail_labelTokens (label : Option String) : TidyTail (labelTokens label) := by
  cases label with
  | none => exact .nil
  | some name => exact .cons rfl (.word rfl (.token rfl))

theorem tidyTail_negationTokens (negated : Bool) : TidyTail (negationTokens negated) := by
  cases negated with
  | false => exact .nil
  | true => exact .cons rfl (.token rfl)

theorem TableRef.tidy_tokens (t : TableRef) : Tidy t.tokens :=
  (Tidy.token (t := .ident t.table) rfl).append (tidyTail_labelTokens t.label)

theorem tidyTail_clauseTokens (word : Keyword) {body : List Token} (h : Tidy body) :
    TidyTail (clauseTokens word body) :=
  .cons rfl (.word rfl h)

theorem tidyTail_listClauseTokens (word : Keyword) {items : List (List Token)}
    (h : ∀ ts ∈ items, Tidy ts) : TidyTail (listClauseTokens word items) := by
  unfold listClauseTokens
  split
  · exact .nil
  · exact tidyTail_clauseTokens word (tidy_commaList h)

theorem tidyTail_orderTokens (d : Dialect) (windowed : Bool) {orders : List (List Token)}
    (h : ∀ ts ∈ orders, Tidy ts) : TidyTail (orderTokens d windowed orders) := by
  unfold orderTokens
  split
  · split
    · exact tidyTail_clauseTokens _ (.group (.word rfl (.token rfl)))
    · exact .nil
  · exact tidyTail_listClauseTokens _ h

theorem tidy_standardTokens (w : Window) : Tidy w.standardTokens := by
  obtain ⟨limit, offset⟩ := w
  cases limit with
  | none =>
    cases offset with
    | none => exact .nil
    | some offset => exact .word rfl (.token rfl)
  | some limit =>
    cases offset with
    | none => exact .word rfl (.token rfl)
    | some offset => exact .word rfl (.word rfl (.word rfl (.token rfl)))

theorem tidy_fetchTokens (w : Window) : Tidy w.fetchTokens := by
  obtain ⟨limit, offset⟩ := w
  cases limit with
  | none => exact .word rfl (.word rfl (.token rfl))
  | some limit =>
    exact .word rfl (.word rfl (.word rfl (.word rfl (.word rfl (.word rfl (.token rfl))))))

theorem tidyTail_windowTokens (d : Dialect) (window : Option Window) :
    TidyTail (windowTokens d window) := by
  cases window with
  | none => exact .nil
  | some w =>
    refine .cons rfl ?_
    cases d with
    | postgres | sqlite | duckdb => exact tidy_standardTokens w
    | tsql => exact tidy_fetchTokens w
    | mysql =>
      unfold Window.tokens
      dsimp only
      split
      · exact .word rfl (.word rfl (.word rfl (.token rfl)))
      · exact tidy_standardTokens w

/-! ## Expressions and queries -/

theorem BinaryOp.tidyTail_tokens (op : BinaryOp) : TidyTail (.space :: op.tokens) := by
  cases op <;> first | exact .cons rfl (.token rfl) | exact .cons rfl (.word rfl (.token rfl))

/-- A predicate with a negation in the middle: the subject, the word and what comes after it. -/
theorem tidy_predicate {subject body : List Token} (negated : Bool) (word : Keyword)
    (hsubject : Tidy subject) (hbody : Tidy body) :
    Tidy (subject ++ negationTokens negated ++ [.space, .keyword word, .space] ++ body) := by
  rw [List.append_assoc]
  exact (hsubject.append (tidyTail_negationTokens negated)).append
    (.cons rfl (.word rfl hbody))

mutual
theorem Expr.tidy_tokens (d : Dialect) (e : Expr) : Tidy (e.tokens d) := by
  cases e with
  | column table name =>
    rw [Expr.tokens]
    cases table with
    | none => exact .token rfl
    | some table => exact .column table name
  | literal value =>
    rw [Expr.tokens]
    cases value <;> exact .token rfl
  | binary op left right =>
    rw [Expr.tokens, List.append_assoc]
    have hright := (Expr.tidy_tokens d right).spaced
    exact (Expr.tidy_tokens d left).append (op.tidyTail_tokens.append hright)
  | not inner =>
    rw [Expr.tokens]
    exact .word rfl (Expr.tidy_tokens d inner)
  | call name args distinct =>
    rw [Expr.tokens]
    have hargs := tidy_commaList (tidy_exprTokens d args)
    cases distinct with
    | false => exact .call rfl hargs
    | true => exact .call rfl (.word rfl hargs)
  | subquery query =>
    rw [Expr.tokens]
    exact .group (Query.tidy_tokens d query)
  | inList subject items negated =>
    cases items with
    | nil =>
      rw [Expr.tokens]
      exact .word rfl (.word rfl (.token rfl))
    | cons item rest =>
      rw [Expr.tokens]
      have hitems := tidy_commaList (tidy_exprTokens d (item :: rest))
      rw [exprTokens] at hitems
      exact tidy_predicate negated .in_ (Expr.tidy_tokens d subject) (.group hitems)
  | inQuery subject query negated =>
    rw [Expr.tokens]
    exact tidy_predicate negated .in_ (Expr.tidy_tokens d subject)
      (.group (Query.tidy_tokens d query))
  | between subject low high negated =>
    rw [Expr.tokens]
    have hlow := tidy_predicate negated .between (Expr.tidy_tokens d subject)
      (Expr.tidy_tokens d low)
    rw [List.append_assoc]
    exact hlow.append (.cons rfl (.word rfl (Expr.tidy_tokens d high)))
  | isNull subject negated =>
    rw [Expr.tokens]
    exact (Expr.tidy_tokens d subject).append (.cons rfl (.token rfl))
  | allColumns table =>
    rw [Expr.tokens]
    cases table with
    | none => exact .token rfl
    | some table => exact .allColumns table
  | paren inner =>
    rw [Expr.tokens]
    exact .group (Expr.tidy_tokens d inner)
  | cast subject target =>
    rw [Expr.tokens]
    exact .call rfl ((Expr.tidy_tokens d subject).append (.cons rfl (.word rfl (.token rfl))))
  | raw text =>
    rw [Expr.tokens]
    exact .token rfl

theorem tidy_exprTokens (d : Dialect) (es : List Expr) : ∀ ts ∈ exprTokens d es, Tidy ts := by
  cases es with
  | nil =>
    rw [exprTokens]
    simp
  | cons e rest =>
    rw [exprTokens]
    intro ts hts
    rcases List.mem_cons.mp hts with rfl | hts
    · exact Expr.tidy_tokens d e
    · exact tidy_exprTokens d rest ts hts

theorem tidyTail_itemTokens (d : Dialect) (items : List Item) :
    ∀ ts ∈ itemTokens d items, TidyTail ts := by
  cases items with
  | nil =>
    rw [itemTokens]
    simp
  | cons item rest =>
    obtain ⟨expr, label⟩ := item
    rw [itemTokens]
    intro ts hts
    rcases List.mem_cons.mp hts with rfl | hts
    · rw [Item.tokens]
      have hexpr := (Expr.tidy_tokens d expr).append (tidyTail_labelTokens label)
      exact .cons rfl (TidyTail.cons rfl hexpr).tidy
    · exact tidyTail_itemTokens d rest ts hts

theorem tidyTail_joinTokens (d : Dialect) (joins : List Join) : TidyTail (joinTokens d joins) := by
  cases joins with
  | nil =>
    rw [joinTokens]
    exact .nil
  | cons join rest =>
    obtain ⟨target, condition⟩ := join
    rw [joinTokens, Join.tokens]
    have hcondition : TidyTail ([.space, .keyword .on_, .space] ++ condition.tokens d) :=
      .cons rfl (.word rfl (Expr.tidy_tokens d condition))
    have hjoin := tidyTail_clauseTokens .leftJoin (target.tidy_tokens.append hcondition)
    have htail := hjoin.append (tidyTail_joinTokens d rest)
    simpa only [clauseTokens, List.append_assoc] using htail

theorem tidy_orderItemTokens (d : Dialect) (orders : List OrderItem) :
    ∀ ts ∈ orderItemTokens d orders, Tidy ts := by
  cases orders with
  | nil =>
    rw [orderItemTokens]
    simp
  | cons item rest =>
    obtain ⟨expr, direction⟩ := item
    rw [orderItemTokens]
    intro ts hts
    rcases List.mem_cons.mp hts with rfl | hts
    · unfold OrderItem.tokens
      exact (Expr.tidy_tokens d expr).append (.cons rfl (.token rfl))
    · exact tidy_orderItemTokens d rest ts hts

theorem tidyTail_conditionTokens (d : Dialect) (condition : Option Expr) :
    TidyTail (conditionTokens d condition) := by
  cases condition with
  | none =>
    rw [conditionTokens]
    exact .nil
  | some e =>
    rw [conditionTokens]
    exact tidyTail_clauseTokens .where_ (Expr.tidy_tokens d e)

theorem Query.tidy_tokens (d : Dialect) (q : Query) : Tidy (q.tokens d) := by
  obtain ⟨items, source, joins, condition, groups, orders, window⟩ := q
  unfold Query.tokens
  have hitems := tidyTail_separated (tidyTail_itemTokens d items)
  have hsource : TidyTail (match source with
      | none => []
      | some t => clauseTokens .from_ t.tokens) := by
    cases source with
    | none => exact .nil
    | some t => exact tidyTail_clauseTokens .from_ t.tidy_tokens
  have htail := (((((hitems.append hsource).append (tidyTail_joinTokens d joins)).append
    (tidyTail_conditionTokens d condition)).append
    (tidyTail_listClauseTokens .groupBy (tidy_exprTokens d groups))).append
    (tidyTail_orderTokens d window.isSome (tidy_orderItemTokens d orders))).append
    (tidyTail_windowTokens d window)
  exact (Tidy.token (t := .keyword .select) rfl).append htail
end

end JsonSql.Sql
