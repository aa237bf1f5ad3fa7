import JsonSql.Sql.Dialect

set_option autoImplicit false

/-!
# Quoting

Identifiers and strings between quotes: the closing quote is doubled inside, and in MySQL strings
a backslash is doubled first.
-/

namespace JsonSql.Sql

/-- Characters with every occurrence of one of them doubled. -/
def doubled (quote : Char) : List Char → List Char
  | [] => []
  | c :: cs => if c = quote then c :: c :: doubled quote cs else c :: doubled quote cs

/-- Characters between two quotes, the closing one doubled inside. -/
def enclosed (opening closing : Char) (cs : List Char) : List Char :=
  opening :: doubled closing cs ++ [closing]

namespace Dialect

/-- An identifier between the quotes of a dialect. -/
def quoteIdent (d : Dialect) (name : String) : List Char :=
  enclosed d.identQuotes.1 d.identQuotes.2 name.toList

/-- A string literal.  In MySQL a backslash escapes; in T-SQL a string that is not ASCII carries
the mark of a Unicode literal. -/
def quoteString (d : Dialect) (s : String) : List Char :=
  match d with
  | postgres | sqlite | duckdb => enclosed '\x27' '\x27' s.toList
  | mysql => enclosed '\x27' '\x27' (doubled '\\' s.toList)
  | tsql =>
    (if s.toList.all fun c => c.toNat < 128 then [] else ['N']) ++ enclosed '\x27' '\x27' s.toList

end Dialect

@[simp] theorem doubled_nil (quote : Char) : doubled quote [] = [] := rfl

theorem doubled_append (quote : Char) (cs ds : List Char) :
    doubled quote (cs ++ ds) = doubled quote cs ++ doubled quote ds := by
  induction cs with
  | nil => rfl
  | cons c cs ih => by_cases h : c = quote <;> simp [doubled, h, ih]

/-- A text without the quote stays as it is. -/
theorem doubled_of_notMem {quote : Char} {cs : List Char} (h : quote ∉ cs) :
    doubled quote cs = cs := by
  induction cs with
  | nil => rfl
  | cons c cs ih =>
    simp only [List.mem_cons, not_or] at h
    simp [doubled, Ne.symm h.1, ih h.2]

/-- The quote is written twice and all else once. -/
theorem count_doubled (quote x : Char) (cs : List Char) :
    (doubled quote cs).count x = (if x = quote then 2 else 1) * cs.count x := by
  induction cs with
  | nil => simp
  | cons c cs ih => by_cases h : c = quote <;> by_cases hx : x = c <;> grind [doubled]

end JsonSql.Sql
