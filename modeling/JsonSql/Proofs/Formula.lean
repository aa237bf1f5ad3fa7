import JsonSql.Proofs.Tidy
import JsonSql.Proofs.Truth

set_option autoImplicit false

/-!
# Reading conditions

A reader of conditions by the precedence of SQL: `OR` binds less than `AND`, `AND` less than `NOT`,
and `NOT` less than comparisons, `LIKE`, `IN`, `BETWEEN` and `IS NULL`.  It reads tokens without
blanks and gives a formula over predicates, which it leaves as tokens.  Each reader is given fuel,
of which it needs no more than four times the number of tokens.
-/

namespace JsonSql.Sql

/-- A logical combination of predicates, each given by its tokens. -/
inductive Formula where
  | predicate (tokens : List Token)
  | not (inner : Formula)
  | and (left right : Formula)
  | or (left right : Formula)
  deriving Repr

/-- The truth value of a formula from those of its predicates. -/
def Formula.value (v : List Token → Truth) : Formula → Truth
  | predicate tokens => v tokens
  | not inner => (inner.value v).not
  | and left right => (left.value v).and (right.value v)
  | or left right => (left.value v).or (right.value v)

/-! ## Tokens -/

/-- White space. -/
def Token.isBlank : Token → Bool
  | .space | .newline | .indent _ => true
  | _ => false

/-- Literal values. -/
def Token.isLiteral : Token → Bool
  | .int _ | .float _ | .str _ | .bool _ | .keyword .null => true
  | _ => false

/-- Symbols that compare two operands. -/
def Symbol.isComparison : Symbol → Bool
  | .eq | .ne | .lt | .gt | .lte | .gte => true
  | _ => false

/-- Tokens without white space. -/
def unspaced (ts : List Token) : List Token := ts.filter fun t => !t.isBlank

@[simp] theorem unspaced_append (ts us : List Token) :
    unspaced (ts ++ us) = unspaced ts ++ unspaced us :=
  List.filter_append ..

theorem unspaced_cons_blank {t : Token} (h : t.isBlank = true) (ts : List Token) :
    unspaced (t :: ts) = unspaced ts := by
  simp [unspaced, h]

theorem unspaced_cons {t : Token} (h : t.isBlank = false) (ts : List Token) :
    unspaced (t :: ts) = t :: unspaced ts := by
  simp [unspaced, h]

@[simp] theorem unspaced_parenthesized (ts : List Token) :
    unspaced (parenthesized ts) = parenthesized (unspaced ts) := by
  simp [unspaced, parenthesized, Token.isBlank]

/-! ## Brackets -/

/-- The tokens up to the bracket that closes one opened before, under so many others, and those
after it. -/
def closing? : Nat → List Token → Option (List Token × List Token)
  | _, [] => none
  | depth, t :: ts =>
    let more (found : List Token × List Token) := (t :: found.1, found.2)
    match t, depth with
    | .symbol .rparen, 0 => some ([], ts)
    | .symbol .rparen, depth + 1 => (closing? depth ts).map more
    | .symbol .lparen, depth => (closing? (depth + 1) ts).map more
    | _, depth => (closing? depth ts).map more

/-- What stands in brackets, the first of which was read, behind tokens that were read before. -/
def bracketed? (before ts : List Token) : Option (List Token × List Token) :=
  (closing? 0 ts).map fun (inner, rest) => (before ++ parenthesized inner, rest)

/-! ## Operands and predicates -/

/-- An operand: a column, a function or a cast of what stands in brackets, a query in brackets, or a
literal. -/
def operand? : List Token → Option (List Token × List Token)
  | .ident table :: .symbol .dot :: .ident name :: ts =>
    some ([.ident table, .symbol .dot, .ident name], ts)
  | .ident name :: ts => some ([.ident name], ts)
  | .function name :: .symbol .lparen :: ts => bracketed? [.function name] ts
  | .keyword .cast :: .symbol .lparen :: ts => bracketed? [.keyword .cast] ts
  | .symbol .lparen :: .keyword .select :: ts => bracketed? [] (.keyword .select :: ts)
  | t :: ts => if t.isLiteral then some ([t], ts) else none
  | [] => none

/-- An operand behind tokens that were read before. -/
def operandAfter? (before ts : List Token) : Option (List Token × List Token) :=
  (operand? ts).map fun (right, rest) => (before ++ right, rest)

/-- The two ends of a range behind tokens that were read before. -/
def rangeAfter? (before ts : List Token) : Option (List Token × List Token) := do
  let (low, rest) ← operand? ts
  match rest with
  | .keyword .and :: rest => operandAfter? (before ++ low ++ [.keyword .and]) rest
  | _ => none

/-- What a predicate asks of its subject, which was read before; nothing more of a function that
gives a truth value. -/
def predicateAfter? (subject : List Token) : List Token → Option (List Token × List Token)
  | .symbol s :: ts =>
    if s.isComparison then operandAfter? (subject ++ [.symbol s]) ts
    else some (subject, .symbol s :: ts)
  | .keyword .like :: ts => operandAfter? (subject ++ [.keyword .like]) ts
  | .keyword .not :: .keyword .like :: ts =>
    operandAfter? (subject ++ [.keyword .not, .keyword .like]) ts
  | .keyword .in_ :: .symbol .lparen :: ts => bracketed? (subject ++ [.keyword .in_]) ts
  | .keyword .not :: .keyword .in_ :: .symbol .lparen :: ts =>
    bracketed? (subject ++ [.keyword .not, .keyword .in_]) ts
  | .keyword .between :: ts => rangeAfter? (subject ++ [.keyword .between]) ts
  | .keyword .not :: .keyword .between :: ts =>
    rangeAfter? (subject ++ [.keyword .not, .keyword .between]) ts
  | .keyword .isNull :: ts => some (subject ++ [.keyword .isNull], ts)
  | .keyword .isNotNull :: ts => some (subject ++ [.keyword .isNotNull], ts)
  | ts => some (subject, ts)

/-- A predicate as a formula. -/
def predicate? (ts : List Token) : Option (Formula × List Token) := do
  let (subject, rest) ← operand? ts
  let (tokens, rest) ← predicateAfter? subject rest
  return (.predicate tokens, rest)

/-! ## Conditions -/

/-- A bracket in front of a query. -/
def startsQuery : List Token → Bool
  | .keyword .select :: _ => true
  | _ => false

mutual
/-- Alternatives. -/
def readAny : Nat → List Token → Option (Formula × List Token)
  | 0, _ => none
  | fuel + 1, ts => do
    let (left, rest) ← readAll fuel ts
    match rest with
    | .keyword .or :: rest => do
      let (right, rest) ← readAny fuel rest
      return (.or left right, rest)
    | rest => return (left, rest)

/-- Conditions that hold together. -/
def readAll : Nat → List Token → Option (Formula × List Token)
  | 0, _ => none
  | fuel + 1, ts => do
    let (left, rest) ← readNot fuel ts
    match rest with
    | .keyword .and :: rest => do
      let (right, rest) ← readAll fuel rest
      return (.and left right, rest)
    | rest => return (left, rest)

/-- A condition or its negation. -/
def readNot : Nat → List Token → Option (Formula × List Token)
  | 0, _ => none
  | fuel + 1, .keyword .not :: ts => do
    let (inner, rest) ← readNot fuel ts
    return (.not inner, rest)
  | fuel + 1, ts => readOne fuel ts

/-- A predicate, or a condition in brackets. -/
def readOne : Nat → List Token → Option (Formula × List Token)
  | 0, _ => none
  | fuel + 1, .symbol .lparen :: ts =>
    if startsQuery ts then predicate? (.symbol .lparen :: ts)
    else do
      let (inner, rest) ← readAny fuel ts
      match rest with
      | .symbol .rparen :: rest => return (inner, rest)
      | _ => none
  | _ + 1, ts => predicate? ts
end

/-- A condition that takes all of the tokens. -/
def readCondition? (ts : List Token) : Option Formula :=
  match readAny (4 * ts.length) ts with
  | some (formula, []) => some formula
  | _ => none

/-! ## Pairs of brackets -/

/-- Brackets in the tokens come in pairs, so a search for a closing bracket passes over them. -/
def Balanced (ts : List Token) : Prop :=
  ∀ depth rest, closing? depth (ts ++ rest) =
    (closing? depth rest).map fun found => (ts ++ found.1, found.2)

namespace Balanced

variable {left right inner : List Token}

theorem nil : Balanced [] := by
  intro depth rest
  simp

theorem append (hl : Balanced left) (hr : Balanced right) : Balanced (left ++ right) := by
  intro depth rest
  rw [List.append_assoc, hl, hr, Option.map_map]
  congr 1
  funext found
  simp

theorem token {t : Token} (hl : t ≠ .symbol .lparen) (hr : t ≠ .symbol .rparen) :
    Balanced [t] := by
  intro depth rest
  rw [List.singleton_append, closing?]
  · rfl
  · exact hl
  · exact fun h _ => hr h
  · exact fun _ h _ => hr h

/-- Tokens that are no brackets come in any number. -/
theorem ofTokens (h : ∀ t ∈ left, t ≠ .symbol .lparen ∧ t ≠ .symbol .rparen) :
    Balanced left := by
  induction left with
  | nil => exact .nil
  | cons t rest ih =>
    obtain ⟨hl, hr⟩ := h t List.mem_cons_self
    exact (Balanced.token hl hr).append (ih fun u hu => h u (List.mem_cons_of_mem _ hu))

theorem parenthesized (h : Balanced inner) : Balanced (parenthesized inner) := by
  intro depth rest
  have hopen : Sql.parenthesized inner ++ rest =
      .symbol .lparen :: (inner ++ .symbol .rparen :: rest) := by
    simp [Sql.parenthesized]
  rw [hopen, closing?, h, closing?]
  rw [Option.map_map, Option.map_map]
  congr 1
  funext found
  simp [Sql.parenthesized]

/-- The bracket that closes what was opened in front of a balanced list. -/
theorem closing?_eq (h : Balanced inner) (rest : List Token) :
    closing? 0 (inner ++ .symbol .rparen :: rest) = some (inner, rest) := by
  rw [h, closing?]
  simp

theorem bracketed?_eq (h : Balanced inner) (before rest : List Token) :
    bracketed? before (inner ++ .symbol .rparen :: rest) =
      some (before ++ Sql.parenthesized inner, rest) := by
  rw [bracketed?, h.closing?_eq]
  rfl

end Balanced

theorem balanced_unspaced_token {t : Token} (hl : t ≠ .symbol .lparen)
    (hr : t ≠ .symbol .rparen) : Balanced (unspaced [t]) := by
  cases hblank : t.isBlank with
  | true =>
    rw [unspaced_cons_blank hblank]
    exact .nil
  | false =>
    rw [unspaced_cons hblank]
    exact .token hl hr

theorem Tidy.balanced {ts : List Token} (h : Tidy ts) : Balanced (unspaced ts) := by
  induction h with
  | nil => exact .nil
  | token ht =>
    exact balanced_unspaced_token (fun hl => by cases hl; cases ht)
      (fun hr => by cases hr; cases ht)
  | column table name => exact .ofTokens (by simp [unspaced, Token.isBlank])
  | allColumns table => exact .ofTokens (by simp [unspaced, Token.isBlank])
  | @apart left right separator _ hseparator _ ihl ihr =>
    have hmiddle : Balanced (unspaced [separator]) :=
      balanced_unspaced_token (fun hl => by cases hl; cases hseparator)
        (fun hr => by cases hr; cases hseparator)
    rw [List.append_cons, unspaced_append, unspaced_append]
    exact (ihl.append hmiddle).append ihr
  | group _ ih =>
    rw [unspaced_parenthesized]
    exact ih.parenthesized
  | call ht _ ih =>
    rw [← List.singleton_append, unspaced_append, unspaced_parenthesized]
    exact (balanced_unspaced_token (fun hl => by cases hl; cases ht)
      (fun hr => by cases hr; cases ht)).append ih.parenthesized

end JsonSql.Sql
