import JsonSql.Proofs.Formula

set_option autoImplicit false

/-!
# What the reader of conditions reads

`OperandTokens` and `PredicateTokens` are the operands and predicates that the reader knows.
`Reads` says that a reader, given enough fuel, takes some tokens for a formula with a known truth value and
leaves the rest.  The lemmas follow the levels of precedence, from predicates up to alternatives.
-/

namespace JsonSql.Sql

/-! ## Operands and predicates -/

/-- The tokens of an operand. -/
inductive OperandTokens : List Token → Prop
  | column (table name : String) : OperandTokens [.ident table, .symbol .dot, .ident name]
  | literal {t : Token} : t.isLiteral = true → OperandTokens [t]
  | call (name : String) {inner : List Token} : Balanced inner →
      OperandTokens (.function name :: parenthesized inner)
  | cast {inner : List Token} : Balanced inner →
      OperandTokens (.keyword .cast :: parenthesized inner)
  | query {inner : List Token} : Balanced (.keyword .select :: inner) →
      OperandTokens (parenthesized (.keyword .select :: inner))

/-- A negation, if there is one. -/
def negation (negated : Bool) : List Token := if negated then [.keyword .not] else []

/-- The tokens of a predicate. -/
inductive PredicateTokens : List Token → Prop
  | bare {subject : List Token} : OperandTokens subject → PredicateTokens subject
  | compare {left right : List Token} {s : Symbol} : OperandTokens left →
      s.isComparison = true → OperandTokens right →
      PredicateTokens (left ++ .symbol s :: right)
  | like {left right : List Token} (negated : Bool) : OperandTokens left →
      OperandTokens right →
      PredicateTokens (left ++ negation negated ++ .keyword .like :: right)
  | among {subject inner : List Token} (negated : Bool) : OperandTokens subject →
      Balanced inner →
      PredicateTokens (subject ++ negation negated ++ .keyword .in_ :: parenthesized inner)
  | between {subject low high : List Token} (negated : Bool) : OperandTokens subject →
      OperandTokens low → OperandTokens high →
      PredicateTokens (subject ++ negation negated ++
        .keyword .between :: low ++ .keyword .and :: high)
  | null {subject : List Token} (negated : Bool) : OperandTokens subject →
      PredicateTokens (subject ++ [.keyword (if negated then .isNotNull else .isNull)])

/-- The rest starts with one of the tokens, if there is a rest. -/
def StopsAt (stops rest : List Token) : Prop := ∀ t ∈ rest.head?, t ∈ stops

theorem StopsAt.mono {stops more rest : List Token} (h : StopsAt stops rest)
    (hsub : stops ⊆ more) : StopsAt more rest := by
  intro t ht
  exact hsub (h t ht)

/-- What ends a predicate: `AND`, `OR` and a closing bracket. -/
def predicateStops : List Token := [.keyword .and, .keyword .or, .symbol .rparen]

theorem parenthesized_append (inner rest : List Token) :
    parenthesized inner ++ rest = .symbol .lparen :: (inner ++ .symbol .rparen :: rest) := by
  simp [parenthesized]

theorem OperandTokens.operand?_append {ts : List Token} (h : OperandTokens ts)
    (rest : List Token) : operand? (ts ++ rest) = some (ts, rest) := by
  cases h with
  | column table name => rfl
  | @literal t ht =>
    cases t with
    | keyword word => cases word <;> first | rfl | cases ht
    | _ => first | rfl | cases ht
  | call name hinner =>
    rw [List.cons_append, parenthesized_append, operand?]
    exact hinner.bracketed?_eq _ rest
  | cast hinner =>
    rw [List.cons_append, parenthesized_append, operand?]
    exact hinner.bracketed?_eq _ rest
  | query hinner =>
    rw [parenthesized_append, List.cons_append, operand?, ← List.cons_append]
    exact hinner.bracketed?_eq _ rest

theorem OperandTokens.operandAfter?_append {ts : List Token} (h : OperandTokens ts)
    (before rest : List Token) :
    operandAfter? before (ts ++ rest) = some (before ++ ts, rest) := by
  rw [operandAfter?, h.operand?_append]
  rfl

theorem rangeAfter?_append {low high : List Token} (hlow : OperandTokens low)
    (hhigh : OperandTokens high) (before rest : List Token) :
    rangeAfter? before (low ++ .keyword .and :: (high ++ rest)) =
      some (before ++ low ++ .keyword .and :: high, rest) := by
  rw [rangeAfter?, hlow.operand?_append]
  dsimp only [Option.bind_eq_bind, Option.bind_some]
  rw [hhigh.operandAfter?_append]
  simp

/-- A predicate is read to its end. -/
theorem PredicateTokens.predicate?_append {ts rest : List Token} (h : PredicateTokens ts)
    (hrest : StopsAt predicateStops rest) :
    predicate? (ts ++ rest) = some (.predicate ts, rest) := by
  have hread : ∀ {subject more tokens : List Token}, OperandTokens subject →
      predicateAfter? subject more = some (tokens, rest) →
      predicate? (subject ++ more) = some (.predicate tokens, rest) := by
    intro subject more tokens hsubject hmore
    rw [predicate?, hsubject.operand?_append]
    dsimp only [Option.bind_eq_bind, Option.bind_some]
    rw [hmore]
    rfl
  cases h with
  | bare hsubject =>
    refine hread hsubject ?_
    cases rest with
    | nil => rfl
    | cons t rest =>
      have ht := hrest t rfl
      simp only [predicateStops, List.mem_cons, List.not_mem_nil, or_false] at ht
      rcases ht with rfl | rfl | rfl <;> rfl
  | @compare left right s hl hs hr =>
    rw [List.append_assoc, List.cons_append]
    refine hread hl ?_
    rw [predicateAfter?, if_pos hs, hr.operandAfter?_append]
    simp
  | like negated hl hr =>
    rw [List.append_assoc, List.append_assoc, List.cons_append]
    refine hread hl ?_
    cases negated <;> simp [negation, predicateAfter?, hr.operandAfter?_append]
  | among negated hsubject hinner =>
    rw [List.append_assoc, List.append_assoc, List.cons_append, parenthesized_append]
    refine hread hsubject ?_
    cases negated <;> simp [negation, predicateAfter?, hinner.bracketed?_eq]
  | between negated hsubject hlow hhigh =>
    simp only [List.append_assoc, List.cons_append]
    refine hread hsubject ?_
    cases negated <;> simp [negation, predicateAfter?, rangeAfter?_append hlow hhigh]
  | null negated hsubject =>
    rw [List.append_assoc]
    refine hread hsubject ?_
    cases negated <;> rfl

/-! ## Levels of precedence -/

/-- A reader with so much fuel or more reads a formula with the truth value `f` and leaves the
rest. -/
def Reads (read : Nat → List Token → Option (Formula × List Token)) (need : Nat)
    (ts rest : List Token) (f : (List Token → Truth) → Truth) : Prop :=
  ∃ formula, (∀ fuel, need ≤ fuel → read fuel ts = some (formula, rest)) ∧
    ∀ v, formula.value v = f v

theorem Reads.mono {read : Nat → List Token → Option (Formula × List Token)} {n m : Nat}
    {ts rest : List Token} {f : (List Token → Truth) → Truth} (h : Reads read n ts rest f)
    (hnm : n ≤ m) : Reads read m ts rest f := by
  obtain ⟨formula, hread, hvalue⟩ := h
  exact ⟨formula, fun fuel hfuel => hread fuel (Nat.le_trans hnm hfuel), hvalue⟩

theorem OperandTokens.readNot_append {ts : List Token} (h : OperandTokens ts) (fuel : Nat)
    (rest : List Token) : readNot (fuel + 2) (ts ++ rest) = predicate? (ts ++ rest) := by
  cases h with
  | column table name => simp [readNot, readOne]
  | @literal t ht =>
    cases t with
    | keyword word => cases word <;> first | (cases ht; done) | simp [readNot, readOne]
    | _ => first | (cases ht; done) | simp [readNot, readOne]
  | call name hinner => simp [readNot, readOne]
  | cast hinner => simp [readNot, readOne]
  | query hinner => simp [readNot, readOne, parenthesized, startsQuery]

theorem PredicateTokens.exists_operand {ts : List Token} (h : PredicateTokens ts) :
    ∃ subject more, OperandTokens subject ∧ ts = subject ++ more := by
  cases h with
  | bare hsubject => exact ⟨ts, [], hsubject, (List.append_nil ts).symm⟩
  | compare hl hs hr => exact ⟨_, _, hl, rfl⟩
  | like negated hl hr => exact ⟨_, _, hl, List.append_assoc ..⟩
  | among negated hsubject hinner => exact ⟨_, _, hsubject, List.append_assoc ..⟩
  | @between subject low high negated hsubject hlow hhigh =>
    refine ⟨subject, negation negated ++ .keyword .between :: low ++ .keyword .and :: high,
      hsubject, ?_⟩
    simp only [List.append_assoc]
  | null negated hsubject => exact ⟨_, _, hsubject, rfl⟩

variable {n m : Nat} {ts more rest : List Token} {f g : (List Token → Truth) → Truth}

theorem reads_predicate (h : PredicateTokens ts) (hrest : StopsAt predicateStops rest) :
    Reads readNot 2 (ts ++ rest) rest fun v => v ts := by
  refine ⟨.predicate ts, fun fuel hfuel => ?_, fun v => rfl⟩
  obtain ⟨k, rfl⟩ := Nat.exists_eq_add_of_le' hfuel
  obtain ⟨subject, after, hsubject, heq⟩ := h.exists_operand
  have hread := h.predicate?_append hrest
  rw [heq, List.append_assoc] at hread ⊢
  rw [hsubject.readNot_append k, hread]

theorem Reads.negation (h : Reads readNot n ts rest f) :
    Reads readNot (n + 1) (.keyword .not :: ts) rest fun v => (f v).not := by
  obtain ⟨formula, hread, hvalue⟩ := h
  refine ⟨.not formula, fun fuel hfuel => ?_, fun v => by rw [Formula.value, hvalue]⟩
  cases fuel with
  | zero => omega
  | succ fuel =>
    rw [readNot, hread fuel (by omega)]
    rfl

/-- No condition starts with `SELECT`, so a bracket in front of one opens a group. -/
theorem Reads.startsQuery_eq_false (h : Reads readAny n ts rest f) : startsQuery ts = false := by
  unfold startsQuery
  split
  · obtain ⟨formula, hread, -⟩ := h
    have := hread (n + 4) (by omega)
    simp [readAny, readAll, readNot, readOne, predicate?, operand?, Token.isLiteral] at this
  · rfl

theorem Reads.group (h : Reads readAny n ts (.symbol .rparen :: rest) f) :
    Reads readNot (n + 2) (.symbol .lparen :: ts) rest f := by
  have hstart := h.startsQuery_eq_false
  obtain ⟨formula, hread, hvalue⟩ := h
  refine ⟨formula, fun fuel hfuel => ?_, hvalue⟩
  obtain ⟨k, rfl⟩ : ∃ k, fuel = k + 2 := Nat.exists_eq_add_of_le' (by omega)
  simp [readNot, readOne, hstart, hread k (by omega)]

theorem Reads.all (h : Reads readNot n ts rest f) (hrest : rest.head? ≠ some (.keyword .and)) :
    Reads readAll (n + 1) ts rest f := by
  obtain ⟨formula, hread, hvalue⟩ := h
  refine ⟨formula, fun fuel hfuel => ?_, hvalue⟩
  cases fuel with
  | zero => omega
  | succ fuel =>
    rw [readAll, hread fuel (by omega)]
    dsimp only [Option.bind_eq_bind, Option.bind_some]
    split
    · exact absurd rfl hrest
    · rfl

theorem Reads.and (h : Reads readNot n ts (.keyword .and :: more) f)
    (hmore : Reads readAll m more rest g) :
    Reads readAll (n + m + 1) ts rest fun v => (f v).and (g v) := by
  obtain ⟨left, hleft, hf⟩ := h
  obtain ⟨right, hright, hg⟩ := hmore
  refine ⟨.and left right, fun fuel hfuel => ?_, fun v => by rw [Formula.value, hf, hg]⟩
  cases fuel with
  | zero => omega
  | succ fuel =>
    rw [readAll, hleft fuel (by omega)]
    dsimp only [Option.bind_eq_bind, Option.bind_some]
    rw [hright fuel (by omega)]
    rfl

theorem Reads.any (h : Reads readAll n ts rest f) (hrest : rest.head? ≠ some (.keyword .or)) :
    Reads readAny (n + 1) ts rest f := by
  obtain ⟨formula, hread, hvalue⟩ := h
  refine ⟨formula, fun fuel hfuel => ?_, hvalue⟩
  cases fuel with
  | zero => omega
  | succ fuel =>
    rw [readAny, hread fuel (by omega)]
    dsimp only [Option.bind_eq_bind, Option.bind_some]
    split
    · exact absurd rfl hrest
    · rfl

theorem Reads.or (h : Reads readAll n ts (.keyword .or :: more) f)
    (hmore : Reads readAny m more rest g) :
    Reads readAny (n + m + 1) ts rest fun v => (f v).or (g v) := by
  obtain ⟨left, hleft, hf⟩ := h
  obtain ⟨right, hright, hg⟩ := hmore
  refine ⟨.or left right, fun fuel hfuel => ?_, fun v => by rw [Formula.value, hf, hg]⟩
  cases fuel with
  | zero => omega
  | succ fuel =>
    rw [readAny, hleft fuel (by omega)]
    dsimp only [Option.bind_eq_bind, Option.bind_some]
    rw [hright fuel (by omega)]
    rfl

end JsonSql.Sql
