import JsonSql.Proofs.Reading
import JsonSql.Proofs.Shape

set_option autoImplicit false

/-!
# Conditions read back

The tokens of a condition, read by the precedence of SQL, have the logical structure of the
expression.  Rendering puts no brackets where the expression has none, so this asks of a condition
that what its conjunctions join is no disjunction.
-/

namespace JsonSql.Sql

/-- The tokens of an expression without white space. -/
def Expr.words (d : Dialect) (e : Expr) : List Token := unspaced (e.tokens d)

/-- The truth value of a condition from those of its predicates, which are known by their tokens. -/
def Expr.truth (d : Dialect) (v : List Token → Truth) : Expr → Truth
  | .binary .and left right => (left.truth d v).and (right.truth d v)
  | .binary .or left right => (left.truth d v).or (right.truth d v)
  | .not inner => (inner.truth d v).not
  | .paren inner => inner.truth d v
  | e => v (e.words d)

/-- The tokens of a condition read back with the truth value `f`. -/
def Expr.ReadsAs (d : Dialect) (e : Expr) (f : (List Token → Truth) → Truth) : Prop :=
  ∃ formula, readCondition? (e.words d) = some formula ∧ ∀ v, formula.value v = f v

section Words

variable {d : Dialect}

theorem words_of (table name : String) :
    (Expr.of table name).words d = [.ident table, .symbol .dot, .ident name] := by
  simp [Expr.words, Expr.of, Expr.tokens, qualifierTokens, unspaced, Token.isBlank]

theorem words_literal (value : Literal) : (Expr.literal value).words d = [value.token] := by
  cases value <;> simp [Expr.words, Expr.tokens, Literal.token, unspaced, Token.isBlank]

theorem words_binary (op : BinaryOp) (left right : Expr) :
    (Expr.binary op left right).words d =
      left.words d ++ unspaced op.tokens ++ right.words d := by
  simp [Expr.words, Expr.tokens, unspaced, Token.isBlank]

theorem words_not (inner : Expr) : (Expr.not inner).words d = .keyword .not :: inner.words d := by
  simp [Expr.words, Expr.tokens, unspaced, Token.isBlank]

theorem words_paren (inner : Expr) :
    (Expr.paren inner).words d = parenthesized (inner.words d) := by
  simp [Expr.words, Expr.tokens]

theorem words_isNull (subject : Expr) (negated : Bool) :
    (Expr.isNull subject negated).words d =
      subject.words d ++ [.keyword (if negated then .isNotNull else .isNull)] := by
  simp [Expr.words, Expr.tokens, unspaced, Token.isBlank]

theorem unspaced_negationTokens (negated : Bool) :
    unspaced (negationTokens negated) = negation negated := by
  cases negated <;> rfl

/-- A word between two blanks. -/
theorem unspaced_spaced (word : Keyword) (ts : List Token) :
    unspaced (.space :: .keyword word :: .space :: ts) = .keyword word :: unspaced ts := rfl

theorem words_between (subject low high : Expr) (negated : Bool) :
    (Expr.between subject low high negated).words d =
      subject.words d ++ negation negated ++
        .keyword .between :: low.words d ++ .keyword .and :: high.words d := by
  simp only [Expr.words, Expr.tokens, unspaced_append, unspaced_negationTokens,
    unspaced_spaced, List.append_assoc, List.cons_append, List.nil_append]

theorem words_inList (subject item : Expr) (rest : List Expr) (negated : Bool) :
    (Expr.inList subject (item :: rest) negated).words d =
      subject.words d ++ negation negated ++ .keyword .in_ ::
        parenthesized (unspaced (commaList (item.tokens d :: exprTokens d rest))) := by
  simp only [Expr.words, Expr.tokens, unspaced_append, unspaced_negationTokens,
    unspaced_spaced, unspaced_parenthesized, List.append_assoc, List.cons_append,
    List.nil_append]

theorem words_inQuery (subject : Expr) (query : Query) (negated : Bool) :
    (Expr.inQuery subject query negated).words d =
      subject.words d ++ negation negated ++
        .keyword .in_ :: parenthesized (unspaced (query.tokens d)) := by
  simp only [Expr.words, Expr.tokens, unspaced_append, unspaced_negationTokens,
    unspaced_spaced, unspaced_parenthesized, List.append_assoc, List.cons_append,
    List.nil_append]

end Words

/-! ## Operands -/

section Operands

variable {d : Dialect}

theorem operandTokens_of (table name : String) :
    OperandTokens ((Expr.of table name).words d) := by
  rw [words_of]
  exact .column table name

theorem operandTokens_literal (value : Literal) :
    OperandTokens ((Expr.literal value).words d) := by
  rw [words_literal]
  cases value <;> exact .literal rfl

theorem operandTokens_call (name : String) (args : List Expr) (distinct : Bool) :
    OperandTokens ((Expr.call name args distinct).words d) := by
  rw [Expr.words, Expr.tokens, unspaced_cons rfl, unspaced_parenthesized]
  refine .call name (Tidy.balanced ?_)
  have hargs := tidy_commaList (tidy_exprTokens d args)
  cases distinct with
  | false => exact hargs
  | true => exact .word rfl hargs

theorem operandTokens_cast (subject : Expr) (target : CastType) :
    OperandTokens ((Expr.cast subject target).words d) := by
  rw [Expr.words, Expr.tokens, unspaced_cons rfl, unspaced_parenthesized]
  refine .cast (Tidy.balanced ?_)
  exact (subject.tidy_tokens d).append (.cons rfl (.word rfl (.token rfl)))

theorem operandTokens_subquery (query : Query) :
    OperandTokens ((Expr.subquery query).words d) := by
  rw [Expr.words, Expr.tokens, unspaced_parenthesized]
  have hquery := (query.tidy_tokens d).balanced
  obtain ⟨body, hbody⟩ : ∃ body, query.tokens d = .keyword .select :: body := by
    cases query
    exact ⟨_, by unfold Query.tokens; rfl⟩
  rw [hbody, unspaced_cons rfl] at hquery ⊢
  exact .query hquery

end Operands

/-! ## Predicates -/

/-- The tokens of an expression are those of a predicate, which it takes its truth value from. -/
structure Expr.IsReadPredicate (d : Dialect) (e : Expr) : Prop where
  tokens : PredicateTokens (e.words d)
  truth : ∀ v, e.truth d v = v (e.words d)

section Predicates

variable {d : Dialect}

theorem isReadPredicate_binary {op : BinaryOp} {left right : Expr}
    (hop : op.isComparison = true) (hl : OperandTokens (left.words d))
    (hr : OperandTokens (right.words d)) : (Expr.binary op left right).IsReadPredicate d := by
  refine ⟨?_, fun v => by cases op <;> first | rfl | cases hop⟩
  have hcompare : ∀ {s : Symbol}, s.isComparison = true →
      PredicateTokens (left.words d ++ [.symbol s] ++ right.words d) := by
    intro s hs
    rw [List.append_assoc]
    exact .compare hl hs hr
  rw [words_binary]
  cases op with
  | and | or | div => cases hop
  | eq | ne | lt | gt | lte | gte => exact hcompare rfl
  | like =>
    have := PredicateTokens.like false hl hr
    rw [negation, if_neg (by decide), List.append_nil] at this
    rw [List.append_assoc]
    exact this
  | notLike =>
    have := PredicateTokens.like true hl hr
    rw [List.append_assoc] at this ⊢
    exact this

theorem isReadPredicate_call (name : String) (args : List Expr) :
    (Expr.apply name args).IsReadPredicate d :=
  ⟨.bare (operandTokens_call name args false), fun _ => rfl⟩

theorem isReadPredicate_isNull {subject : Expr} (negated : Bool)
    (h : OperandTokens (subject.words d)) : (Expr.isNull subject negated).IsReadPredicate d := by
  refine ⟨?_, fun v => rfl⟩
  rw [words_isNull]
  exact .null negated h

theorem isReadPredicate_inList {subject : Expr} (items : List Expr) (negated : Bool)
    (h : OperandTokens (subject.words d)) :
    (Expr.inList subject items negated).IsReadPredicate d := by
  refine ⟨?_, fun v => rfl⟩
  cases items with
  | nil =>
    rw [Expr.words, Expr.tokens]
    exact .compare (s := .eq) (.literal rfl) rfl (.literal rfl)
  | cons item rest =>
    have hitems := tidy_commaList (tidy_exprTokens d (item :: rest))
    rw [exprTokens] at hitems
    rw [words_inList]
    exact .among negated h hitems.balanced

theorem isReadPredicate_inQuery {subject : Expr} (query : Query) (negated : Bool)
    (h : OperandTokens (subject.words d)) :
    (Expr.inQuery subject query negated).IsReadPredicate d := by
  refine ⟨?_, fun v => rfl⟩
  rw [words_inQuery]
  exact .among negated h (query.tidy_tokens d).balanced

theorem isReadPredicate_between {subject low high : Expr} (negated : Bool)
    (h : OperandTokens (subject.words d)) (hlow : OperandTokens (low.words d))
    (hhigh : OperandTokens (high.words d)) :
    (Expr.between subject low high negated).IsReadPredicate d := by
  refine ⟨?_, fun v => rfl⟩
  rw [words_between]
  exact .between negated h hlow hhigh

end Predicates

/-! ## Levels of precedence

An expression of a level is read with its truth value wherever the tokens after it end the level,
and its value enters that of what follows where they continue the level.  The fuel is four times the
number of tokens, so that the levels of one bracket fit in. -/

/-- Fuel enough to read an expression. -/
def Expr.need (d : Dialect) (e : Expr) : Nat := 4 * (e.words d).length

/-- An expression that is read as a predicate, a negation or a condition in brackets. -/
def Expr.ReadsOne (d : Dialect) (e : Expr) : Prop :=
  0 < (e.words d).length ∧ ∀ {rest}, StopsAt predicateStops rest →
    Reads readNot (e.need d - 2) (e.words d ++ rest) rest fun v => e.truth d v

/-- An expression that is read as a conjunction. -/
structure Expr.ReadsAll (d : Dialect) (e : Expr) : Prop where
  last : ∀ {rest}, StopsAt [.keyword .or, .symbol .rparen] rest →
    Reads readAll (e.need d - 1) (e.words d ++ rest) rest fun v => e.truth d v
  next : ∀ {more rest m g}, Reads readAll m more rest g →
    Reads readAll (e.need d + m) (e.words d ++ .keyword .and :: more) rest
      fun v => (e.truth d v).and (g v)

/-- An expression that is read as a disjunction. -/
structure Expr.ReadsAny (d : Dialect) (e : Expr) : Prop where
  last : ∀ {rest}, StopsAt [.symbol .rparen] rest →
    Reads readAny (e.need d) (e.words d ++ rest) rest fun v => e.truth d v
  next : ∀ {more rest m g}, Reads readAny m more rest g →
    Reads readAny (e.need d + m) (e.words d ++ .keyword .or :: more) rest
      fun v => (e.truth d v).or (g v)

section Levels

variable {d : Dialect} {e left right inner : Expr}

theorem StopsAt.head?_ne {stops rest : List Token} (h : StopsAt stops rest) {t : Token}
    (ht : t ∉ stops) : rest.head? ≠ some t := by
  intro heq
  exact ht (h t heq)

theorem Reads.congr {read : Nat → List Token → Option (Formula × List Token)} {n : Nat}
    {ts rest : List Token} {f g : (List Token → Truth) → Truth} (h : Reads read n ts rest f)
    (hfg : ∀ v, f v = g v) : Reads read n ts rest g := by
  obtain ⟨formula, hread, hvalue⟩ := h
  exact ⟨formula, hread, fun v => (hvalue v).trans (hfg v)⟩

theorem PredicateTokens.length_pos {ts : List Token} (h : PredicateTokens ts) :
    0 < ts.length := by
  obtain ⟨subject, more, hsubject, rfl⟩ := h.exists_operand
  cases hsubject <;> simp [parenthesized]

theorem Expr.IsReadPredicate.readsOne (h : e.IsReadPredicate d) : e.ReadsOne d := by
  have hpos := h.tokens.length_pos
  refine ⟨hpos, fun {rest} hrest => ?_⟩
  have hread := reads_predicate h.tokens hrest
  exact (hread.mono (by rw [Expr.need]; omega)).congr fun v => (h.truth v).symm

theorem Expr.ReadsOne.not (h : inner.ReadsOne d) : (Expr.not inner).ReadsOne d := by
  have hlength : ((Expr.not inner).words d).length = (inner.words d).length + 1 := by
    rw [words_not, List.length_cons]
  refine ⟨by omega, fun {rest} hrest => ?_⟩
  have hpos := h.1
  have hread := (h.2 hrest).negation
  rw [words_not, List.cons_append]
  refine (hread.mono ?_).congr fun v => rfl
  rw [Expr.need, Expr.need, hlength]
  omega

theorem Expr.ReadsAny.paren (h : inner.ReadsAny d) : (Expr.paren inner).ReadsOne d := by
  have hlength : ((Expr.paren inner).words d).length = (inner.words d).length + 2 := by
    rw [words_paren, parenthesized]
    simp
  refine ⟨by omega, fun {rest} hrest => ?_⟩
  have hclose : StopsAt [.symbol .rparen] (.symbol .rparen :: rest) := by
    intro t ht
    cases ht
    exact List.mem_cons_self
  have hread := (h.last hclose).group
  rw [words_paren, parenthesized_append]
  refine (hread.mono ?_).congr fun v => rfl
  rw [Expr.need, Expr.need, hlength]
  omega

theorem Expr.ReadsOne.all (h : e.ReadsOne d) : e.ReadsAll d := by
  have hpos := h.1
  refine ⟨fun {rest} hrest => ?_, fun {more rest m g} hmore => ?_⟩
  · have hstops : StopsAt predicateStops rest := hrest.mono (by decide)
    have hread := (h.2 hstops).all (hrest.head?_ne (by decide))
    exact hread.mono (by rw [Expr.need]; omega)
  · have hstops : StopsAt predicateStops (.keyword .and :: more) := by
      intro t ht
      cases ht
      exact List.mem_cons_self
    have hread := (h.2 hstops).and hmore
    exact hread.mono (by rw [Expr.need]; omega)

theorem Expr.ReadsAll.any (hpos : 0 < (e.words d).length) (h : e.ReadsAll d) :
    e.ReadsAny d := by
  refine ⟨fun {rest} hrest => ?_, fun {more rest m g} hmore => ?_⟩
  · have hstops : StopsAt [.keyword .or, .symbol .rparen] rest := hrest.mono (by decide)
    have hread := (h.last hstops).any (hrest.head?_ne (by decide))
    exact hread.mono (by rw [Expr.need]; omega)
  · have hstops : StopsAt [.keyword .or, .symbol .rparen] (.keyword .or :: more) := by
      intro t ht
      cases ht
      exact List.mem_cons_self
    have hread := (h.last hstops).or hmore
    exact hread.mono (by rw [Expr.need]; omega)

theorem Expr.need_both : (Expr.both left right).need d = left.need d + right.need d + 4 := by
  simp only [Expr.need, Expr.both, words_binary, List.length_append]
  have : (unspaced BinaryOp.and.tokens).length = 1 := rfl
  omega

theorem Expr.need_either : (Expr.either left right).need d = left.need d + right.need d + 4 := by
  simp only [Expr.need, Expr.either, words_binary, List.length_append]
  have : (unspaced BinaryOp.or.tokens).length = 1 := rfl
  omega

/-- The tokens of a conjunction, with those after it. -/
theorem words_both_append (rest : List Token) :
    (Expr.both left right).words d ++ rest =
      left.words d ++ .keyword .and :: (right.words d ++ rest) := by
  rw [Expr.both, words_binary, List.append_assoc, List.append_assoc]
  rfl

theorem words_either_append (rest : List Token) :
    (Expr.either left right).words d ++ rest =
      left.words d ++ .keyword .or :: (right.words d ++ rest) := by
  rw [Expr.either, words_binary, List.append_assoc, List.append_assoc]
  rfl

theorem Expr.ReadsAll.both (hl : left.ReadsAll d) (hr : right.ReadsAll d) :
    (Expr.both left right).ReadsAll d := by
  refine ⟨fun {rest} hrest => ?_, fun {more rest m g} hmore => ?_⟩
  · rw [words_both_append, need_both]
    exact (hl.next (hr.last hrest)).mono (by omega)
  · rw [words_both_append, need_both]
    refine ((hl.next (hr.next hmore)).mono (by omega)).congr fun v => ?_
    exact (Truth.and_assoc ..).symm

theorem Expr.ReadsAny.either (hl : left.ReadsAny d) (hr : right.ReadsAny d) :
    (Expr.either left right).ReadsAny d := by
  refine ⟨fun {rest} hrest => ?_, fun {more rest m g} hmore => ?_⟩
  · rw [words_either_append, need_either]
    exact (hl.next (hr.last hrest)).mono (by omega)
  · rw [words_either_append, need_either]
    refine ((hl.next (hr.next hmore)).mono (by omega)).congr fun v => ?_
    exact (Truth.or_assoc ..).symm

end Levels

/-- An expression that reads back as it is, in brackets where it is a disjunction among
conjunctions. -/
structure Expr.IsReadable (d : Dialect) (e : Expr) : Prop where
  any : e.ReadsAny d
  all : e.isDisjunction = false → e.ReadsAll d

section Readable

variable {d : Dialect} {e left right inner : Expr}

theorem Expr.ReadsOne.isReadable (h : e.ReadsOne d) : e.IsReadable d :=
  ⟨h.all.any h.1, fun _ => h.all⟩

theorem Expr.IsReadPredicate.isReadable (h : e.IsReadPredicate d) : e.IsReadable d :=
  h.readsOne.isReadable

theorem Expr.IsReadable.paren (h : inner.IsReadable d) : (Expr.paren inner).IsReadable d :=
  h.any.paren.isReadable

theorem Expr.IsReadable.guarded (h : e.IsReadable d) : e.guarded.IsReadable d := by
  unfold Expr.guarded
  split
  · exact h.paren
  · exact h

theorem Expr.IsReadable.both (hl : left.IsReadable d) (hr : right.IsReadable d)
    (hld : left.isDisjunction = false) (hrd : right.isDisjunction = false) :
    (Expr.both left right).IsReadable d := by
  have hall := (hl.all hld).both (hr.all hrd)
  refine ⟨hall.any ?_, fun _ => hall⟩
  have : (Expr.both left right).need d = left.need d + right.need d + 4 := Expr.need_both
  rw [Expr.need] at this
  omega

theorem Expr.IsReadable.either (hl : left.IsReadable d) (hr : right.IsReadable d) :
    (Expr.either left right).IsReadable d :=
  ⟨hl.any.either hr.any, fun h => by cases h⟩

/-- A readable expression reads back with its truth value. -/
theorem Expr.IsReadable.readsAs (h : e.IsReadable d) : e.ReadsAs d fun v => e.truth d v := by
  have hend : StopsAt [.symbol .rparen] ([] : List Token) := by
    intro t ht
    cases ht
  obtain ⟨formula, hread, hvalue⟩ := h.any.last hend
  refine ⟨formula, ?_, hvalue⟩
  have hformula := hread _ (Nat.le_refl _)
  rw [List.append_nil] at hformula
  rw [readCondition?, ← Expr.need, hformula]

end Readable

end JsonSql.Sql
