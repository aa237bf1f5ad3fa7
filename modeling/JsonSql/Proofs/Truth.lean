set_option autoImplicit false

/-!
# Three-valued logic

The truth values of SQL conditions.  A comparison with null is unknown, and `and`, `or` and `not`
treat unknown as a value between no and yes.
-/

namespace JsonSql

/-- A truth value of SQL. -/
inductive Truth where
  | no
  | unknown
  | yes
  deriving DecidableEq, Repr, Inhabited

namespace Truth

/-- The lesser of two truth values. -/
def and : Truth → Truth → Truth
  | no, _ | _, no => no
  | yes, t => t
  | unknown, _ => unknown

/-- The greater of two truth values. -/
def or : Truth → Truth → Truth
  | yes, _ | _, yes => yes
  | no, t => t
  | unknown, _ => unknown

/-- The opposite truth value. -/
def not : Truth → Truth
  | no => yes
  | unknown => unknown
  | yes => no

/-- A truth value or its opposite. -/
def negatedIf (negated : Bool) (t : Truth) : Truth := if negated then t.not else t

/-- A decided truth value. -/
def ofBool (b : Bool) : Truth := if b then yes else no

/-- All of the truth values hold. -/
def all (ts : List Truth) : Truth := ts.foldr and yes

/-- Some of the truth values holds. -/
def any (ts : List Truth) : Truth := ts.foldr or no

/-- All of the truth values hold; without any there is nothing to say. -/
def all? : List Truth → Option Truth
  | [] => none
  | ts => some (all ts)

/-- Some of the truth values holds; without any there is nothing to say. -/
def any? : List Truth → Option Truth
  | [] => none
  | ts => some (any ts)

theorem and_assoc (a b c : Truth) : (a.and b).and c = a.and (b.and c) := by
  cases a <;> cases b <;> cases c <;> rfl

theorem or_assoc (a b c : Truth) : (a.or b).or c = a.or (b.or c) := by
  cases a <;> cases b <;> cases c <;> rfl

@[simp] theorem and_yes (a : Truth) : a.and yes = a := by
  cases a <;> rfl

@[simp] theorem or_no (a : Truth) : a.or no = a := by
  cases a <;> rfl

@[simp] theorem and_eq_yes {a b : Truth} : a.and b = yes ↔ a = yes ∧ b = yes := by
  cases a <;> cases b <;> decide

@[simp] theorem ofBool_eq_yes {b : Bool} : ofBool b = yes ↔ b = true := by
  cases b <;> decide

@[simp] theorem all_nil : all [] = yes := rfl

@[simp] theorem all_cons (t : Truth) (ts : List Truth) : all (t :: ts) = t.and (all ts) := rfl

@[simp] theorem any_cons (t : Truth) (ts : List Truth) : any (t :: ts) = t.or (any ts) := rfl

theorem any_eq_yes {ts : List Truth} : any ts = yes ↔ yes ∈ ts := by
  induction ts with
  | nil => simp [any]
  | cons t rest ih => cases t <;> cases hrest : any rest <;> simp [or, ← ih, hrest]

theorem any_eq_no {ts : List Truth} : any ts = no ↔ ∀ t ∈ ts, t = no := by
  induction ts with
  | nil => simp [any]
  | cons t rest ih => cases t <;> cases hrest : any rest <;> simp [or, ← ih, hrest]

end Truth

end JsonSql
