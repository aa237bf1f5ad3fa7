import JsonSql.Proofs.Comparisons
import JsonSql.Proofs.Selection
import JsonSql.Sql.Render

set_option autoImplicit false

/-!
# The algebra of operators

An operator whose key has one more `n` than that of another is its negation: the two have a
predicate for the same literals and fail for the same, and their predicates have opposite truth
values, of which the unknown is its own opposite.  An operator that takes no value is the negation
of itself where it is not kept.  To be one of several values is to equal some of them, and to be
between two values is to be neither below the one nor above the other.
-/

namespace JsonSql

open JsonSql.Sql

theorem Truth.not_not (t : Truth) : t.not.not = t := by
  cases t <;> rfl

/-! ## Negations -/

namespace Operator

/-- An operator is the negation of another by their keys. -/
def Negates (op positive : Operator) : Prop :=
  ∃ name, op.key = "_n" ++ name ∧ positive.key = "_" ++ name

/-- The operator that an operator is the negation of, if it is one. -/
def unnegated : Operator → Operator
  | equal ignoreCase _ => equal ignoreCase false
  | oneOf _ => oneOf false
  | null _ => null false
  | empty _ => empty false
  | holds place ignoreCase _ => holds place ignoreCase false
  | between _ => between false
  | intersects boxes _ => intersects boxes false
  | op => op

@[simp] theorem isNegated_unnegated (op : Operator) : op.unnegated.isNegated = false := by
  cases op <;> rfl

@[simp] theorem ignoresCase_unnegated (op : Operator) :
    op.unnegated.ignoresCase = op.ignoresCase := by
  cases op <;> rfl

@[simp] theorem stem_unnegated (op : Operator) : op.unnegated.stem = op.stem := by
  cases op <;> rfl

theorem negates_unnegated {op : Operator} (h : op.isNegated = true) : op.Negates op.unnegated := by
  refine ⟨(if op.ignoresCase then "i" else "") ++ op.stem, ?_, ?_⟩
  · simp [key, h, String.append_assoc]
  · simp [key, String.append_assoc]

/-- Keys tell which operator is the negation of which. -/
theorem Negates.eq {op positive : Operator} (h : op.Negates positive) :
    op.isNegated = true ∧ positive = op.unnegated := by
  -- Operators are compared by the characters of their keys, pair by pair.
  have table : all.all (fun op => all.all fun positive =>
      decide (op.key.toList = '_' :: 'n' :: positive.key.toList.tail →
        op.isNegated = true ∧ positive = op.unnegated)) = true := by
    decide +kernel
  have hrow := List.all_eq_true.mp table op (mem_all op)
  have hpair := of_decide_eq_true (List.all_eq_true.mp hrow positive (mem_all positive))
  obtain ⟨name, hop, hpositive⟩ := h
  exact hpair (by simp [hop, hpositive])

/-- Two operators build predicates of opposite truth values: neither has one without the other,
and neither fails without the other. -/
structure Opposes (op positive : Operator) (d : Dialect) (column : Expr) (values : List Literal)
    (kept : Bool) : Prop where
  fails : (∃ e, op.predicate? d column values kept = .error e) ↔
    ∃ e, positive.predicate? d column values kept = .error e
  isLeftOut : op.predicate? d column values kept = .ok none ↔
    positive.predicate? d column values kept = .ok none
  truth : ∀ e e', op.predicate? d column values kept = .ok (some e) →
    positive.predicate? d column values kept = .ok (some e') →
    ∀ (E : Engine) (db : Database E) (tables : Tables E),
      e.truthOn db tables = (e'.truthOn db tables).not

variable {d : Dialect} {column : Expr} {values : List Literal} {kept : Bool}

theorem truth?_of_isNegated {op : Operator} (h : op.isNegated = true) {E : Engine} (v : E.Value) :
    op.truth? E d v values kept = (op.unnegated.truth? E d v values kept).map Truth.not := by
  cases op with
  | less | lessOrEqual | greater | greaterOrEqual => cases h
  | equal ignoreCase negated =>
    cases h
    cases ignoreCase <;> simp [truth?, unnegated, Truth.negatedIf, Function.comp_def]
  | oneOf negated =>
    cases h
    rfl
  | null negated =>
    cases h
    cases kept <;> cases hnone : v.isNone <;> simp [truth?, unnegated, hnone] <;> rfl
  | empty negated =>
    cases h
    cases kept <;> simp [truth?, unnegated, Truth.negatedIf, Truth.not_not]
  | holds place ignoreCase negated =>
    cases h
    simp [truth?, unnegated, Truth.negatedIf, Function.comp_def]
  | between negated =>
    cases h
    rcases values with _ | ⟨low, _ | ⟨high, _ | ⟨extra, rest⟩⟩⟩ <;> rfl
  | intersects boxes negated =>
    cases h
    rcases values with _ | ⟨value, rest⟩
    · rfl
    · cases value <;> rfl

/-- An operator and what it is the negation of both fail, both have no predicate, or both have
one. -/
theorem outcomes_of_isNegated {op : Operator} (h : op.isNegated = true) :
    (∃ e e', op.predicate? d column values kept = .error e ∧
        op.unnegated.predicate? d column values kept = .error e') ∨
      (op.predicate? d column values kept = .ok none ∧
        op.unnegated.predicate? d column values kept = .ok none) ∨
      ∃ e e', op.predicate? d column values kept = .ok (some e) ∧
        op.unnegated.predicate? d column values kept = .ok (some e') := by
  have hone : (∃ e e', (values.head?.map (op.compareOne column)) = some e ∧
      values.head?.map (op.unnegated.compareOne column) = some e') ∨ values = [] := by
    cases values <;> simp
  cases op with
  | less | lessOrEqual | greater | greaterOrEqual => cases h
  | equal _ _ | holds _ _ _ =>
    obtain ⟨e, e', he, he'⟩ | rfl := hone
    · exact .inr (.inr ⟨e, e', congrArg _ he, congrArg _ he'⟩)
    · exact .inr (.inl ⟨rfl, rfl⟩)
  | oneOf _ | null _ | empty _ => exact .inr (.inr ⟨_, _, rfl, rfl⟩)
  | between _ =>
    rcases values with _ | ⟨low, _ | ⟨high, _ | ⟨extra, rest⟩⟩⟩
    · exact .inr (.inl ⟨rfl, rfl⟩)
    · exact .inr (.inl ⟨rfl, rfl⟩)
    · exact .inr (.inr ⟨_, _, rfl, rfl⟩)
    · exact .inr (.inl ⟨rfl, rfl⟩)
  | intersects boxes _ =>
    rcases values with _ | ⟨value, rest⟩
    · exact .inr (.inl ⟨rfl, rfl⟩)
    · cases value with
      | string geojson =>
        simp only [predicate?, unnegated]
        cases d.intersects? column geojson boxes with
        | none => exact .inl ⟨_, _, rfl, rfl⟩
        | some e => exact .inr (.inr ⟨_, _, rfl, rfl⟩)
      | int _ | float _ | bool _ | null => exact .inr (.inl ⟨rfl, rfl⟩)

theorem Negates.opposes {op positive : Operator} (h : op.Negates positive) (d : Dialect)
    (column : Expr) (values : List Literal) (kept : Bool) :
    op.Opposes positive d column values kept := by
  obtain ⟨hop, rfl⟩ := h.eq
  have houtcomes := @outcomes_of_isNegated d column values kept op hop
  refine ⟨?_, ?_, ?_⟩
  · rcases houtcomes with ⟨e, e', he, he'⟩ | ⟨he, he'⟩ | ⟨e, e', he, he'⟩ <;> simp [he, he']
  · rcases houtcomes with ⟨e, e', he, he'⟩ | ⟨he, he'⟩ | ⟨e, e', he, he'⟩ <;> simp [he, he']
  · intro e e' he he' E db tables
    have htruth : some (e.truthOn db tables) = _ := truthOn_predicate? he
    have htruth' : some (e'.truthOn db tables) = _ := truthOn_predicate? he'
    rw [truth?_of_isNegated hop, ← htruth'] at htruth
    exact Option.some.inj htruth

/-- An operator that takes no value turns into its negation, and its negation into it, where it
is not kept. -/
theorem Negates.predicate?_false {op positive : Operator} (h : op.Negates positive)
    (harity : positive.arity = .none) (d : Dialect) (column : Expr) (values : List Literal) :
    positive.predicate? d column values false = op.predicate? d column values true ∧
      op.predicate? d column values false = positive.predicate? d column values true := by
  obtain ⟨hop, rfl⟩ := h.eq
  cases op with
  | null negated | empty negated =>
    cases hop
    exact ⟨rfl, rfl⟩
  | equal _ _ | less | lessOrEqual | greater | greaterOrEqual | oneOf _ | holds _ _ _ | between _
    | intersects _ _ => cases harity

end Operator

/-! ## Lists and ranges -/

section

variable (d : Dialect) (column : Expr) (values : List Literal) (kept : Bool)

/-- To be one of several values is to equal some of them. -/
theorem exists_among_equalities :
    ∃ (among : Expr) (equalities : List Expr),
      (Operator.oneOf false).predicate? d column values kept = .ok (some among) ∧
      values.mapM (fun x => (Operator.equal false false).predicate? d column [x] kept) =
        .ok (equalities.map some) ∧
      ∀ (E : Engine) (db : Database E) (tables : Tables E),
        among.truthOn db tables = Truth.any (equalities.map (Expr.truthOn db tables)) := by
  refine ⟨_, values.map fun x => .equals column (.literal x), rfl, ?_, ?_⟩
  · rw [List.map_map]
    exact List.mapM_pure
  · intro E db tables
    rw [truthOn_inList]
    simp [Truth.negatedIf, Engine.isAmong, Function.comp_def]

/-- To be between two values is to be neither below the first nor above the second. -/
theorem exists_within_bounds (low high : Literal) :
    ∃ within atLeast atMost : Expr,
      (Operator.between false).predicate? d column [low, high] kept = .ok (some within) ∧
      Operator.greaterOrEqual.predicate? d column [low] kept = .ok (some atLeast) ∧
      Operator.lessOrEqual.predicate? d column [high] kept = .ok (some atMost) ∧
      ∀ (E : Engine) (db : Database E) (tables : Tables E),
        within.truthOn db tables =
          (atLeast.truthOn db tables).and (atMost.truthOn db tables) := by
  refine ⟨_, _, _, rfl, rfl, rfl, ?_⟩
  intro E db tables
  simp [Operator.compareOne, Operator.ignoresCase, Operator.binaryOp, truthOn_binary,
    Engine.binary, Truth.negatedIf]

end

/-- The comparison that being one of no values is written as, or its negation. -/
def Sql.Expr.emptyList (negated : Bool) : Expr :=
  .equals (.int 1) (.int (if negated then 1 else 0))

theorem tokens_inList_nil (d : Dialect) (column : Expr) (negated : Bool) :
    (Expr.inList column [] negated).tokens d = (Expr.emptyList negated).tokens d := by
  cases negated <;> rfl

/-- An engine knows which integers are equal. -/
def Sql.Engine.TellsIntegers (E : Engine) : Prop :=
  ∀ m n : Int, E.same (E.literal (.int m)) (E.literal (.int n)) = .ofBool (m = n)

theorem tellsIntegers_literals : Engine.literals.TellsIntegers := by
  intro m n
  simp [Engine.same, Engine.compare, Engine.literals]

/-- The comparison has the truth value of being one of no values, or not. -/
theorem truthOn_emptyList {E : Engine} (h : E.TellsIntegers) (db : Database E) (tables : Tables E)
    (column : Expr) (negated : Bool) :
    (Expr.emptyList negated).truthOn db tables =
      (Expr.inList column [] negated).truthOn db tables := by
  rw [Expr.emptyList, truthOn_equals, Expr.int, Expr.int, value_literal, value_literal, h,
    truthOn_inList]
  cases negated <;> rfl

/-! ## The algebra -/

/-- Every negated operator is the negation of an operator, and the two build opposite predicates
from the same literals or none; if they take no value, each is the other where it is not kept.  To
be among values is the disjunction of equalities, which no value makes false, and to be between
two is the conjunction of two comparisons. -/
theorem operators_pair_up (d : Dialect) (column : Expr) (values : List Literal) (kept : Bool) :
    (∀ op : Operator, op.isNegated = true → ∃ positive : Operator, op.Negates positive) ∧
      (∀ op positive : Operator, op.Negates positive →
        op.Opposes positive d column values kept ∧
        (positive.arity = .none →
          positive.predicate? d column values false = op.predicate? d column values true ∧
          op.predicate? d column values false = positive.predicate? d column values true)) ∧
      (∃ (among : Expr) (equalities : List Expr),
        (Operator.oneOf false).predicate? d column values kept = .ok (some among) ∧
        values.mapM (fun x => (Operator.equal false false).predicate? d column [x] kept) =
          .ok (equalities.map some) ∧
        ∀ (E : Engine) (db : Database E) (tables : Tables E),
          among.truthOn db tables = Truth.any (equalities.map (Expr.truthOn db tables))) ∧
      (∀ negated : Bool, ∃ among : Expr,
        (Operator.oneOf negated).predicate? d column [] kept = .ok (some among) ∧
        among.tokens d = (Expr.emptyList negated).tokens d ∧
        ∀ (E : Engine) (db : Database E) (tables : Tables E),
          among.truthOn db tables = .ofBool negated ∧
          (E.TellsIntegers → (Expr.emptyList negated).truthOn db tables = .ofBool negated)) ∧
      ∀ low high : Literal, ∃ within atLeast atMost : Expr,
        (Operator.between false).predicate? d column [low, high] kept = .ok (some within) ∧
        Operator.greaterOrEqual.predicate? d column [low] kept = .ok (some atLeast) ∧
        Operator.lessOrEqual.predicate? d column [high] kept = .ok (some atMost) ∧
        ∀ (E : Engine) (db : Database E) (tables : Tables E),
          within.truthOn db tables =
            (atLeast.truthOn db tables).and (atMost.truthOn db tables) := by
  refine ⟨fun op hop => ⟨_, Operator.negates_unnegated hop⟩, fun op positive h => ⟨?_, ?_⟩, ?_, ?_,
    ?_⟩
  · exact h.opposes d column values kept
  · exact fun harity => h.predicate?_false harity d column values
  · exact exists_among_equalities d column values kept
  · intro negated
    have hnone (E : Engine) (db : Database E) (tables : Tables E) :
        (Expr.inList column [] negated).truthOn db tables = .ofBool negated := by
      rw [truthOn_inList]
      cases negated <;> rfl
    refine ⟨_, rfl, tokens_inList_nil d column negated, fun E db tables => ⟨?_, fun h => ?_⟩⟩
    · exact hnone E db tables
    · exact (truthOn_emptyList h db tables column negated).trans (hnone E db tables)
  · exact exists_within_bounds d column kept

/-- On a row without an author it is unknown whether the author is among some and whether not. -/
theorem operators_pair_up_blog :
    ∃ among other : Expr,
      (Operator.oneOf false).predicate? .postgres (.of "articles" "author") [.int 1, .int 2] true =
        .ok (some among) ∧
      (Operator.oneOf true).predicate? .postgres (.of "articles" "author") [.int 1, .int 2] true =
        .ok (some other) ∧
      (∀ row ∈ Database.blog "articles",
        other.truthOn Database.blog [("articles", row)] =
          (among.truthOn Database.blog [("articles", row)]).not) ∧
      (Database.blog "articles").map (fun row => among.truthOn Database.blog [("articles", row)]) =
        [.yes, .unknown] ∧
      (Operator.null false).predicate? .postgres (.of "articles" "author") [] false =
        (Operator.null true).predicate? .postgres (.of "articles" "author") [] true ∧
      (Expr.emptyList true).truthOn Database.blog [] = .yes := by
  have h := operators_pair_up .postgres (.of "articles" "author") [.int 1, .int 2] true
  have hnull := operators_pair_up .postgres (.of "articles" "author") [] true
  obtain ⟨positive, hnegates⟩ := h.1 (.oneOf true) rfl
  obtain ⟨-, rfl⟩ := hnegates.eq
  obtain ⟨_, _, _, hempty⟩ := hnull.2.2.2.1 true
  refine ⟨_, _, rfl, rfl, fun row _ => ?_, ?_, ?_, ?_⟩
  · exact (h.2.1 _ _ hnegates).1.truth _ _ rfl rfl _ _ _
  · simp only [truthOn_inList, value_of]
    rfl
  · exact ((hnull.2.1 (.null true) (.null false) ⟨"null", by decide, by decide⟩).2 rfl).1
  · exact (hempty Engine.literals Database.blog []).2 tellsIntegers_literals

end JsonSql
