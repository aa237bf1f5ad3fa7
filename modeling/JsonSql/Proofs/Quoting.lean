import JsonSql.Proofs.Compiled
import JsonSql.Proofs.Vocabulary

set_option autoImplicit false

/-!
# Compiled statements read as their tokens

The values of a request and the names of a schema enter a statement as quoted tokens only; all other
words of a compiled statement come from fixed lists.  So its text, read by the rules of its dialect,
gives the lexemes of its tokens, whatever is in these values and names.
-/

namespace JsonSql

open JsonSql.Sql

namespace Sql

/-- Tokens of the vocabulary. -/
def IsKnown (ts : List Token) : Prop := ∀ t ∈ ts, t.isVocabulary = true

@[simp] theorem isKnown_nil : IsKnown [] := by
  intro t ht
  cases ht

@[simp] theorem isKnown_cons {t : Token} {ts : List Token} :
    IsKnown (t :: ts) ↔ t.isVocabulary = true ∧ IsKnown ts :=
  List.forall_mem_cons

@[simp] theorem isKnown_append {ts us : List Token} :
    IsKnown (ts ++ us) ↔ IsKnown ts ∧ IsKnown us :=
  List.forall_mem_append

section Pieces

variable {items : List (List Token)}

attribute [local simp] Token.isVocabulary

theorem isKnown_separated {separator : List Token} (hseparator : IsKnown separator)
    (h : ∀ ts ∈ items, IsKnown ts) : IsKnown (separated separator items) := by
  induction items with
  | nil => exact isKnown_nil
  | cons item rest ih =>
    have hitem := h item List.mem_cons_self
    cases rest with
    | nil => exact hitem
    | cons next rest =>
      have hrest := ih fun ts hts => h ts (List.mem_cons_of_mem _ hts)
      exact isKnown_append.mpr ⟨isKnown_append.mpr ⟨hitem, hseparator⟩, hrest⟩

theorem isKnown_commaList (h : ∀ ts ∈ items, IsKnown ts) : IsKnown (commaList items) :=
  isKnown_separated (by simp) h

theorem isKnown_parenthesized {ts : List Token} (h : IsKnown ts) :
    IsKnown (parenthesized ts) := by
  simp [parenthesized, h]

theorem isKnown_labelTokens (label : Option String) : IsKnown (labelTokens label) := by
  cases label <;> simp [labelTokens]

theorem isKnown_negationTokens (negated : Bool) : IsKnown (negationTokens negated) := by
  cases negated <;> simp [negationTokens]

theorem TableRef.isKnown_tokens (t : TableRef) : IsKnown t.tokens := by
  simp [TableRef.tokens, isKnown_labelTokens]

theorem isKnown_clauseTokens (word : Keyword) {body : List Token} (h : IsKnown body) :
    IsKnown (clauseTokens word body) := by
  simp [clauseTokens, h]

theorem isKnown_listClauseTokens (word : Keyword) (h : ∀ ts ∈ items, IsKnown ts) :
    IsKnown (listClauseTokens word items) := by
  unfold listClauseTokens
  split
  · exact isKnown_nil
  · exact isKnown_clauseTokens word (isKnown_commaList h)

theorem isKnown_orderTokens (d : Dialect) (windowed : Bool) (h : ∀ ts ∈ items, IsKnown ts) :
    IsKnown (orderTokens d windowed items) := by
  unfold orderTokens
  split
  · split
    · exact isKnown_clauseTokens _ (isKnown_parenthesized (by simp))
    · exact isKnown_nil
  · exact isKnown_listClauseTokens _ h

theorem isKnown_standardTokens (w : Window) : IsKnown w.standardTokens := by
  obtain ⟨limit, offset⟩ := w
  refine isKnown_separated (by simp) ?_
  intro ts hts
  cases limit <;> cases offset <;>
    simp [Window.limitPart, Window.offsetPart] at hts <;>
    rcases hts with rfl | rfl <;> simp [rowCount]

theorem isKnown_windowTokens (d : Dialect) (window : Option Window) :
    IsKnown (windowTokens d window) := by
  cases window with
  | none => exact isKnown_nil
  | some w =>
    refine isKnown_cons.mpr ⟨rfl, ?_⟩
    have hstandard := isKnown_standardTokens w
    obtain ⟨limit, offset⟩ := w
    cases d with
    | postgres | sqlite | duckdb => exact hstandard
    | tsql =>
      cases limit <;> simp [Window.tokens, Window.fetchTokens, rowCount]
    | mysql =>
      unfold Window.tokens
      dsimp only
      split
      · have hlimit : unboundedLimit ∈ rawTexts := by decide
        simp [rowCount, hlimit]
      · exact hstandard

end Pieces

/-! ## Expressions and queries -/

section Expressions

variable {d : Dialect}

theorem exprTokens_eq (es : List Expr) : exprTokens d es = es.map (Expr.tokens d) := by
  induction es with
  | nil => rw [exprTokens, List.map_nil]
  | cons e rest ih => rw [exprTokens, ih, List.map_cons]

theorem isKnown_exprTokens {es : List Expr} (h : ∀ e ∈ es, IsKnown (e.tokens d)) :
    ∀ ts ∈ exprTokens d es, IsKnown ts := by
  rw [exprTokens_eq]
  simpa using h

theorem isKnown_column (table : Option String) (name : String) :
    IsKnown ((Expr.column table name).tokens d) := by
  cases table <;> simp [Expr.tokens, qualifierTokens, Token.isVocabulary]

theorem isKnown_literal (value : Literal) : IsKnown ((Expr.literal value).tokens d) := by
  cases value <;> simp [Expr.tokens, Literal.token, Token.isVocabulary]

theorem isKnown_binary (op : BinaryOp) {left right : Expr} (hl : IsKnown (left.tokens d))
    (hr : IsKnown (right.tokens d)) : IsKnown ((Expr.binary op left right).tokens d) := by
  have hop : IsKnown op.tokens := by
    cases op <;> simp [BinaryOp.tokens, Token.isVocabulary]
  simp [Expr.tokens, Token.isVocabulary, hl, hr, hop]

theorem isKnown_not {inner : Expr} (h : IsKnown (inner.tokens d)) :
    IsKnown ((Expr.not inner).tokens d) := by
  simp [Expr.tokens, Token.isVocabulary, h]

theorem isKnown_call {name : String} (hname : functionNames.contains name = true)
    {args : List Expr} (hargs : ∀ e ∈ args, IsKnown (e.tokens d)) (distinct : Bool) :
    IsKnown ((Expr.call name args distinct).tokens d) := by
  have hlist := isKnown_commaList (isKnown_exprTokens hargs)
  rw [Expr.tokens]
  refine isKnown_cons.mpr ⟨hname, isKnown_parenthesized ?_⟩
  cases distinct <;> simp [Token.isVocabulary, hlist]

theorem isKnown_one {arg : Expr} (h : IsKnown (arg.tokens d)) :
    ∀ e ∈ [arg], IsKnown (e.tokens d) :=
  List.forall_mem_cons.mpr ⟨h, by simp⟩

theorem isKnown_two {left right : Expr} (hl : IsKnown (left.tokens d))
    (hr : IsKnown (right.tokens d)) : ∀ e ∈ [left, right], IsKnown (e.tokens d) :=
  List.forall_mem_cons.mpr ⟨hl, isKnown_one hr⟩

theorem isKnown_cast {subject : Expr} (h : IsKnown (subject.tokens d)) (target : CastType) :
    IsKnown ((Expr.cast subject target).tokens d) := by
  have htype : d.castTypeName target ∈ typeNames := by
    cases d <;> cases target <;> decide
  rw [Expr.tokens]
  refine isKnown_cons.mpr ⟨rfl, isKnown_parenthesized ?_⟩
  simp [Token.isVocabulary, h, htype]

theorem isKnown_isNull {subject : Expr} (h : IsKnown (subject.tokens d)) (negated : Bool) :
    IsKnown ((Expr.isNull subject negated).tokens d) := by
  simp [Expr.tokens, Token.isVocabulary, h]

theorem isKnown_paren {inner : Expr} (h : IsKnown (inner.tokens d)) :
    IsKnown ((Expr.paren inner).tokens d) := by
  rw [Expr.tokens]
  exact isKnown_parenthesized h

theorem isKnown_between {subject low high : Expr} (h : IsKnown (subject.tokens d))
    (hlow : IsKnown (low.tokens d)) (hhigh : IsKnown (high.tokens d)) (negated : Bool) :
    IsKnown ((Expr.between subject low high negated).tokens d) := by
  simp [Expr.tokens, Token.isVocabulary, h, hlow, hhigh, isKnown_negationTokens]

theorem isKnown_inList {subject : Expr} (h : IsKnown (subject.tokens d)) {items : List Expr}
    (hitems : ∀ e ∈ items, IsKnown (e.tokens d)) (negated : Bool) :
    IsKnown ((Expr.inList subject items negated).tokens d) := by
  cases items with
  | nil => simp [Expr.tokens, emptyListTokens, Token.isVocabulary]
  | cons item rest =>
    have hlist := isKnown_parenthesized (isKnown_commaList (isKnown_exprTokens hitems))
    rw [exprTokens] at hlist
    simp [Expr.tokens, Token.isVocabulary, h, hlist, isKnown_negationTokens]

theorem isKnown_inQuery {subject : Expr} (h : IsKnown (subject.tokens d)) {query : Query}
    (hquery : IsKnown (query.tokens d)) (negated : Bool) :
    IsKnown ((Expr.inQuery subject query negated).tokens d) := by
  simp [Expr.tokens, Token.isVocabulary, h, isKnown_parenthesized hquery,
    isKnown_negationTokens]

theorem isKnown_itemTokens {items : List Item}
    (h : ∀ item ∈ items, IsKnown (item.expr.tokens d)) :
    ∀ ts ∈ itemTokens d items, IsKnown ts := by
  induction items with
  | nil => simp [itemTokens]
  | cons item rest ih =>
    obtain ⟨expr, label⟩ := item
    have hexpr : IsKnown (expr.tokens d) := h ⟨expr, label⟩ List.mem_cons_self
    rw [itemTokens]
    refine List.forall_mem_cons.mpr ⟨?_, ih fun i hi => h i (List.mem_cons_of_mem _ hi)⟩
    simp [Item.tokens, Token.isVocabulary, hexpr, isKnown_labelTokens]

theorem isKnown_orderItemTokens {orders : List OrderItem}
    (h : ∀ o ∈ orders, IsKnown (o.expr.tokens d)) :
    ∀ ts ∈ orderItemTokens d orders, IsKnown ts := by
  induction orders with
  | nil => simp [orderItemTokens]
  | cons o rest ih =>
    obtain ⟨expr, direction⟩ := o
    have hexpr : IsKnown (expr.tokens d) := h ⟨expr, direction⟩ List.mem_cons_self
    rw [orderItemTokens]
    refine List.forall_mem_cons.mpr ⟨?_, ih fun i hi => h i (List.mem_cons_of_mem _ hi)⟩
    simp [OrderItem.tokens, Token.isVocabulary, hexpr]

theorem isKnown_joinTokens {joins : List Join}
    (h : ∀ join ∈ joins, IsKnown (join.condition.tokens d)) : IsKnown (joinTokens d joins) := by
  induction joins with
  | nil => simp [joinTokens]
  | cons join rest ih =>
    obtain ⟨target, condition⟩ := join
    have hcondition : IsKnown (condition.tokens d) := h ⟨target, condition⟩ List.mem_cons_self
    have hrest := ih fun j hj => h j (List.mem_cons_of_mem _ hj)
    simp [joinTokens, Join.tokens, Token.isVocabulary, hcondition, hrest,
      target.isKnown_tokens]

/-- A query is of the vocabulary if its parts are. -/
theorem isKnown_query {q : Query} (hitems : ∀ item ∈ q.items, IsKnown (item.expr.tokens d))
    (hjoins : ∀ join ∈ q.joins, IsKnown (join.condition.tokens d))
    (hcondition : ∀ e ∈ q.condition, IsKnown (e.tokens d))
    (hgroups : ∀ e ∈ q.groups, IsKnown (e.tokens d))
    (horders : ∀ o ∈ q.orders, IsKnown (o.expr.tokens d)) : IsKnown (q.tokens d) := by
  obtain ⟨items, source, joins, condition, groups, orders, window⟩ := q
  have hcomma : IsKnown [.symbol .comma] := by simp [Token.isVocabulary]
  unfold Query.tokens
  simp only [List.cons_append, isKnown_cons, isKnown_append]
  refine ⟨rfl, ⟨⟨⟨⟨⟨isKnown_separated hcomma (isKnown_itemTokens hitems), ?_⟩,
    isKnown_joinTokens hjoins⟩, ?_⟩, ?_⟩, ?_⟩, isKnown_windowTokens d window⟩
  · cases source with
    | none => exact isKnown_nil
    | some t => exact isKnown_clauseTokens _ t.isKnown_tokens
  · cases condition with
    | none =>
      rw [conditionTokens]
      exact isKnown_nil
    | some e =>
      rw [conditionTokens]
      exact isKnown_clauseTokens _ (hcondition e rfl)
  · exact isKnown_listClauseTokens _ (isKnown_exprTokens hgroups)
  · exact isKnown_orderTokens d _ (isKnown_orderItemTokens horders)

end Expressions

end Sql

/-! ## Compiled statements -/

section Shapes

variable {d : Dialect} {names : List String} {e : Expr}

theorem IsLink.isKnown (h : IsLink names e) : IsKnown (e.tokens d) := by
  cases h with
  | keys a b _ _ => exact isKnown_binary .eq (isKnown_column _ _) (isKnown_column _ _)
  | polymorphic column field collection key _ _ =>
    exact isKnown_binary .and (isKnown_binary .eq (isKnown_column _ _) (isKnown_literal _))
      (isKnown_binary .eq (isKnown_column _ _) (isKnown_cast (isKnown_column _ _) .text))

theorem AreLinked.isKnown {joins : List Join} (h : AreLinked names joins) :
    ∀ join ∈ joins, IsKnown (join.condition.tokens d) := by
  induction joins generalizing names with
  | nil => simp
  | cons join rest ih =>
    obtain ⟨target, condition⟩ := join
    exact List.forall_mem_cons.mpr ⟨h.1.isKnown, ih h.2⟩

theorem isKnown_countRows : IsKnown (Expr.countRows.tokens d) := by
  refine isKnown_call rfl ?_ false
  intro e he
  rw [List.mem_singleton.mp he]
  simp [Expr.tokens, qualifierTokens, Token.isVocabulary]

theorem IsCount.isKnown {table : String} {q : Query} (h : IsCount table q) :
    IsKnown (q.tokens d) := by
  cases h with
  | mk collection name hcondition =>
    refine isKnown_query ?_ ?_ ?_ ?_ ?_
    · exact List.forall_mem_cons.mpr ⟨isKnown_countRows, by simp⟩
    · simp
    · intro e he
      rw [← Option.some.inj he]
      exact hcondition.isKnown
    · simp
    · simp

theorem isKnown_datePart (dialect : Dialect) (part : Sql.DatePart) (kind : Calendar.DateKind)
    (table name : String) :
    IsKnown ((dialect.datePart part kind (.of table name)).tokens d) := by
  have hcolumn : IsKnown ((Expr.of table name).tokens d) := isKnown_column _ _
  cases dialect with
  | postgres | duckdb =>
    exact isKnown_call rfl (isKnown_two (isKnown_literal _) hcolumn) false
  | mysql =>
    have hname : functionNames.contains part.mysqlFunction = true := by
      cases part <;> rfl
    exact isKnown_call hname (isKnown_one hcolumn) false
  | tsql =>
    have hraw : part.name ∈ rawTexts := by
      cases part <;> decide
    refine isKnown_call rfl (isKnown_two ?_ hcolumn) false
    simp [Expr.tokens, Token.isVocabulary, hraw]
  | sqlite =>
    refine isKnown_cast (isKnown_call rfl ?_ false) .integer
    have hdivided : IsKnown ((Expr.binary .div (.of table name) (.int 1000)).tokens d) :=
      isKnown_binary .div hcolumn (isKnown_literal _)
    refine List.forall_mem_cons.mpr ⟨isKnown_literal _, ?_⟩
    split
    · exact isKnown_two hdivided (isKnown_literal _)
    · exact isKnown_one hcolumn

theorem IsColumn.isKnown (h : IsColumn names e) : IsKnown (e.tokens d) := by
  cases h with
  | plain name _ => exact isKnown_column _ _
  | part dialect part kind name _ => exact isKnown_datePart _ _ _ _ _
  | jsonLength dialect name _ he =>
    cases dialect <;> cases he <;>
      exact isKnown_call rfl (isKnown_one (isKnown_column _ _)) false
  | count _ hq =>
    rw [Expr.tokens]
    exact isKnown_parenthesized hq.isKnown

theorem IsKey.isKnown (h : IsKey names e) : IsKnown (e.tokens d) := by
  cases h with
  | plain name _ => exact isKnown_column _ _
  | text name _ => exact isKnown_cast (isKnown_column _ _) .text

theorem isKnown_intersects? {dialect : Dialect} {column e : Expr} {geojson : String}
    {boxes : Bool} (hcolumn : IsKnown (column.tokens d))
    (h : dialect.intersects? column geojson boxes = some e) : IsKnown (e.tokens d) := by
  have hgeometry : IsKnown ((Dialect.geometry geojson).tokens d) :=
    isKnown_call rfl (isKnown_one (isKnown_literal _)) false
  cases dialect with
  | tsql | sqlite => cases h
  | mysql =>
    cases boxes <;> cases h <;>
      exact isKnown_call rfl (isKnown_two hcolumn hgeometry) false
  | postgres | duckdb =>
    cases boxes with
    | false =>
      cases h
      exact isKnown_call rfl (isKnown_two hcolumn hgeometry) false
    | true =>
      cases h
      have henvelope : ∀ {e : Expr}, IsKnown (e.tokens d) →
          IsKnown ((Expr.apply "ST_Envelope" [e]).tokens d) :=
        fun he => isKnown_call rfl (isKnown_one he) false
      exact isKnown_call rfl
        (isKnown_two (henvelope hcolumn) (henvelope hgeometry)) false

theorem IsPredicate.isKnown {column : Expr} (hcolumn : IsKnown (column.tokens d))
    (h : IsPredicate column e) : IsKnown (e.tokens d) := by
  cases h with
  | null negated => exact isKnown_isNull hcolumn negated
  | compare value _ => exact isKnown_binary _ hcolumn (isKnown_literal value)
  | compareLower value _ =>
    have hlower : IsKnown (column.lower.tokens d) :=
      isKnown_call rfl (isKnown_one hcolumn) false
    exact isKnown_binary _ hlower (isKnown_literal value)
  | oneOf values negated =>
    refine isKnown_inList hcolumn ?_ negated
    intro e he
    obtain ⟨value, -, rfl⟩ := List.mem_map.mp he
    exact isKnown_literal value
  | between low high negated =>
    exact isKnown_between hcolumn (isKnown_literal low) (isKnown_literal high) negated
  | intersects dialect geojson boxes negated he =>
    have hcall := isKnown_intersects? hcolumn he
    cases negated with
    | false => exact hcall
    | true => exact isKnown_not hcall

theorem IsCondition.isKnown (h : IsCondition names e) : IsKnown (e.tokens d) := by
  induction h with
  | predicate hcolumn he => exact he.isKnown hcolumn.isKnown
  | never names => exact isKnown_binary .eq (isKnown_literal _) (isKnown_literal _)
  | both _ _ _ _ ihl ihr => exact isKnown_binary .and ihl ihr
  | either _ _ ihl ihr => exact isKnown_binary .or ihl ihr
  | paren _ ih => exact isKnown_paren ih
  | existential collection field negated hkey hjoins _ ih =>
    refine isKnown_inQuery hkey.isKnown (isKnown_query ?_ hjoins.isKnown ?_ ?_ ?_) negated
    · exact List.forall_mem_cons.mpr ⟨isKnown_column _ _, by simp⟩
    · intro e he
      rw [← Option.some.inj he]
      exact ih
    · simp
    · simp

theorem IsItem.isKnown (h : IsItem names e) : IsKnown (e.tokens d) := by
  cases h with
  | table _ => simp [Expr.tokens, qualifierTokens, Token.isVocabulary]
  | column he => exact he.isKnown
  | rows => exact isKnown_countRows
  | @aggregation e a he =>
    cases a <;> exact isKnown_call rfl (isKnown_one he.isKnown) _

theorem IsStatement.isKnown {collection : String} {q : Query} (h : IsStatement collection q) :
    IsKnown (q.tokens d) :=
  isKnown_query (fun item hitem => (h.items item hitem).isKnown) h.joins.isKnown
    (fun e he => (h.condition e he).isKnown) (fun e he => (h.groups e he).isKnown)
    (fun o ho => (h.orders o ho).isKnown)

end Shapes

/-- The text of a compiled statement reads as the lexemes of its tokens one after another.  Each
token reads so on its own, quoted names and strings as what they quote, and what is not quoted comes
from the vocabulary. -/
theorem lex?_of_compile {s : Schema} {options : Options} {names : Nat → String}
    {collection : String} {r : Request} {q : Query}
    (h : Compiler.compile { provider := s.provider, options, names } collection r = .ok q)
    (d : Dialect) :
    d.lex? (q.sql d).toList = some ((q.tokens d).flatMap (Token.lexemes d)) ∧
      ∀ t ∈ q.tokens d, d.lex? (t.chars d) = some (t.lexemes d) ∧ t.isVocabulary = true := by
  have hknown : IsKnown (q.tokens d) := (isStatement_of_compile h).isKnown
  refine ⟨(q.tidy_tokens d).lex?_eq hknown, fun t ht => ⟨?_, hknown t ht⟩⟩
  have hlegible : t.IsLegible d := Token.isLegible (hknown t ht)
  exact hlegible.lex?_eq

theorem lex?_of_compile_blog :
    ∃ q, (Compiler.blog .tsql).compile "articles" Request.blog = .ok q ∧
      Dialect.tsql.lex? (q.sql .tsql).toList =
        some ((q.tokens .tsql).flatMap (Token.lexemes .tsql)) := by
  obtain ⟨q, hq⟩ := exists_compile_blog .tsql
  exact ⟨q, hq, (lex?_of_compile hq .tsql).1⟩

end JsonSql
