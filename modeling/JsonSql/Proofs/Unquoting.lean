import JsonSql.Proofs.Legible

set_option autoImplicit false

/-!
# Quoted text is read back

Each dialect reads a string or a name up to its closing quote, where a doubled one stands for
itself, and in the strings of MySQL a backslash with the character after it for another.  What the
dialect has quoted is read as it was, to the closing quote and no further, unless the text goes on
with a quote of the same kind: then the two are taken for a doubled one.
-/

namespace JsonSql.Sql

/-! ## Reading by the rules of a dialect -/

/-- What a backslash and a character after it stand for in the strings of MySQL.  Before the
wildcards of patterns the backslash stays. -/
def unescaped : Char → List Char
  | '0' => ['\x00']
  | 'b' => ['\x08']
  | 'n' => ['\n']
  | 'r' => ['\r']
  | 't' => ['\t']
  | 'Z' => ['\x1a']
  | '%' => ['\\', '%']
  | '_' => ['\\', '_']
  | c => [c]

/-- The text up to a closing quote, decoded, and what follows the quote. -/
def unquoted? (closing : Char) (escapes : Bool) : List Char → Option (List Char × List Char)
  | [] => none
  | c :: cs =>
    if c = closing then
      match cs with
      | [] => some ([], [])
      | c' :: cs' =>
        if c' = closing then
          (unquoted? closing escapes cs').map fun found => (closing :: found.1, found.2)
        else some ([], c' :: cs')
    else if escapes && c = '\\' then
      match cs with
      | [] => none
      | c' :: cs' =>
        (unquoted? closing escapes cs').map fun found => (unescaped c' ++ found.1, found.2)
    else (unquoted? closing escapes cs).map fun found => (c :: found.1, found.2)

/-- What follows the opening quote of a string, which the mark of a Unicode literal may precede in
T-SQL. -/
def Dialect.stringBody? (d : Dialect) : List Char → Option (List Char)
  | '\x27' :: cs => some cs
  | 'N' :: '\x27' :: cs => if d = .tsql then some cs else none
  | _ => none

/-- The string literal that a text starts with, and what follows it. -/
def Dialect.readString? (d : Dialect) (cs : List Char) : Option (String × List Char) :=
  (d.stringBody? cs).bind fun body =>
    (unquoted? '\x27' (d = .mysql) body).map fun found => (.ofList found.1, found.2)

/-- What follows the opening quote of a name. -/
def Dialect.nameBody? (d : Dialect) : List Char → Option (List Char)
  | [] => none
  | c :: cs => if c = d.identQuotes.1 then some cs else none

/-- The quoted name that a text starts with, and what follows it. -/
def Dialect.readName? (d : Dialect) (cs : List Char) : Option (String × List Char) :=
  (d.nameBody? cs).bind fun body =>
    (unquoted? d.identQuotes.2 false body).map fun found => (.ofList found.1, found.2)

example : Dialect.mysql.readString? "'it\\'s\\n' x".toList = some ("it's\n", " x".toList) := by
  decide +kernel

/-! ## Bodies -/

variable {closing : Char} {escapes : Bool} {cs rest : List Char}

/-- Characters that were read before those that a reader finds. -/
def behind (cs : List Char) (found : List Char × List Char) : List Char × List Char :=
  (cs ++ found.1, found.2)

theorem map_behind_nil (found : Option (List Char × List Char)) :
    found.map (behind []) = found := by
  cases found <;> rfl

theorem map_behind_append (cs ds : List Char) (found : Option (List Char × List Char)) :
    (found.map (behind ds)).map (behind cs) = found.map (behind (cs ++ ds)) := by
  rw [Option.map_map]
  congr 1
  funext found
  simp [behind]

theorem unquoted?_twice (closing : Char) (escapes : Bool) (cs : List Char) :
    unquoted? closing escapes (closing :: closing :: cs) =
      (unquoted? closing escapes cs).map (behind [closing]) := by
  rw [unquoted?.eq_def]
  dsimp only
  rw [if_pos rfl, if_pos rfl]
  rfl

theorem unquoted?_backslash (hclosing : '\\' ≠ closing) (cs : List Char) :
    unquoted? closing true ('\\' :: '\\' :: cs) =
      (unquoted? closing true cs).map (behind ['\\']) := by
  rw [unquoted?.eq_def]
  dsimp only
  rw [if_neg hclosing, if_pos (by decide)]
  rfl

theorem unquoted?_plain {c : Char} (hc : c ≠ closing) (hescape : escapes = true → c ≠ '\\')
    (cs : List Char) :
    unquoted? closing escapes (c :: cs) = (unquoted? closing escapes cs).map (behind [c]) := by
  rw [unquoted?.eq_def]
  dsimp only
  rw [if_neg hc, if_neg (by simpa using hescape)]
  rfl

theorem unquoted?_closing (h : rest.head? ≠ some closing) :
    unquoted? closing escapes (closing :: rest) = some ([], rest) := by
  rw [unquoted?.eq_def]
  dsimp only
  rw [if_pos rfl]
  cases rest with
  | nil => rfl
  | cons c rest => exact if_neg fun hc => h (congrArg some hc)

/-- Text whose closing quotes were doubled is read as it was, whatever follows. -/
theorem unquoted?_doubled_append (closing : Char) (cs rest : List Char) :
    unquoted? closing false (doubled closing cs ++ rest) =
      (unquoted? closing false rest).map (behind cs) := by
  induction cs with
  | nil => rw [doubled_nil, List.nil_append, map_behind_nil]
  | cons c cs ih =>
    rw [doubled]
    by_cases hc : c = closing
    · subst hc
      rw [if_pos rfl, List.cons_append, List.cons_append, unquoted?_twice, ih, map_behind_append]
      rfl
    · rw [if_neg hc, List.cons_append, unquoted?_plain hc (by simp), ih, map_behind_append]
      rfl

/-- Where a backslash escapes, it was doubled before the quotes were: no backslash of the text is
left alone before a quote. -/
theorem unquoted?_escaped_append (cs rest : List Char) :
    unquoted? '\x27' true (doubled '\x27' (doubled '\\' cs) ++ rest) =
      (unquoted? '\x27' true rest).map (behind cs) := by
  induction cs with
  | nil => rw [doubled_nil, doubled_nil, List.nil_append, map_behind_nil]
  | cons c cs ih =>
    rw [doubled]
    by_cases hslash : c = '\\'
    · subst hslash
      rw [if_pos rfl, doubled, if_neg (by decide), doubled, if_neg (by decide), List.cons_append,
        List.cons_append, unquoted?_backslash (by decide), ih, map_behind_append]
      rfl
    · rw [if_neg hslash, doubled]
      by_cases hc : c = '\x27'
      · subst hc
        rw [if_pos rfl, List.cons_append, List.cons_append, unquoted?_twice, ih,
          map_behind_append]
        rfl
      · rw [if_neg hc, List.cons_append, unquoted?_plain hc (fun _ => hslash), ih,
          map_behind_append]
        rfl

/-- A quote closes the text before it exactly if no other one follows. -/
theorem map_behind_closing_eq_some_iff :
    (unquoted? closing escapes (closing :: rest)).map (behind cs) = some (cs, rest) ↔
      rest.head? ≠ some closing := by
  constructor
  · intro h hhead
    obtain ⟨more, rfl⟩ : ∃ more, rest = closing :: more := by
      cases rest with
      | nil => cases hhead
      | cons c more => exact ⟨more, by rw [Option.some.inj hhead]⟩
    rw [unquoted?_twice, map_behind_append] at h
    -- the second quote would have to be read as nothing
    obtain ⟨found, -, hfound⟩ := Option.map_eq_some_iff.mp h
    have hlength := congrArg (fun found => found.1.length) hfound
    simp only [behind, List.length_append, List.length_singleton] at hlength
    omega
  · intro h
    rw [unquoted?_closing h]
    simp [behind]

/-! ## Strings and names -/

theorem map_ofList_eq_some_iff {found : Option (List Char × List Char)} {s : String} :
    (found.map fun f => (String.ofList f.1, f.2)) = some (s, rest) ↔
      found = some (s.toList, rest) := by
  constructor
  · intro h
    obtain ⟨⟨text, after⟩, rfl, hfound⟩ := Option.map_eq_some_iff.mp h
    cases hfound
    rw [String.toList_ofList]
  · rintro rfl
    simp

theorem stringBody?_of_quote (d : Dialect) (cs : List Char) :
    d.stringBody? ('\x27' :: cs) = some cs := rfl

/-- A string between quotes that are doubled inside is read back where no backslash escapes. -/
theorem readString?_enclosed {d : Dialect} (hd : d ≠ .mysql) {s : String} {body : List Char}
    (hbody : d.stringBody? body = some (doubled '\x27' s.toList ++ '\x27' :: rest)) :
    d.readString? body = some (s, rest) ↔ rest.head? ≠ some '\x27' := by
  rw [Dialect.readString?, hbody, Option.bind_some, decide_eq_false hd, map_ofList_eq_some_iff,
    unquoted?_doubled_append, map_behind_closing_eq_some_iff]

theorem readString?_quoteString (d : Dialect) (s : String) (rest : List Char) :
    d.readString? (d.quoteString s ++ rest) = some (s, rest) ↔ rest.head? ≠ some '\x27' := by
  cases d with
  | postgres | sqlite | duckdb =>
    refine readString?_enclosed (by decide) ?_
    rw [Dialect.quoteString, enclosed_append, stringBody?_of_quote]
  | mysql =>
    rw [Dialect.readString?, Dialect.quoteString, enclosed_append, stringBody?_of_quote,
      Option.bind_some, decide_eq_true rfl, map_ofList_eq_some_iff, unquoted?_escaped_append,
      map_behind_closing_eq_some_iff]
  | tsql =>
    refine readString?_enclosed (by decide) ?_
    rw [Dialect.quoteString]
    split
    · rw [List.nil_append, enclosed_append, stringBody?_of_quote]
    · rw [List.append_assoc, enclosed_append]
      rfl

theorem readName?_quoteIdent (d : Dialect) (name : String) (rest : List Char) :
    d.readName? (d.quoteIdent name ++ rest) = some (name, rest) ↔
      rest.head? ≠ some d.identQuotes.2 := by
  rw [Dialect.readName?, Dialect.quoteIdent, enclosed_append, Dialect.nameBody?, if_pos rfl,
    Option.bind_some, map_ofList_eq_some_iff, unquoted?_doubled_append,
    map_behind_closing_eq_some_iff]

/-- Quoting is undone by reading: a quoted string, and a quoted name, in front of any text reads as
what was quoted, with that text left over, exactly if the text does not start with the closing
quote. -/
theorem quoted_read_back (d : Dialect) (s : String) (rest : List Char) :
    (d.readString? (d.quoteString s ++ rest) = some (s, rest) ↔ rest.head? ≠ some '\x27') ∧
      (d.readName? (d.quoteIdent s ++ rest) = some (s, rest) ↔
        rest.head? ≠ some d.identQuotes.2) :=
  ⟨readString?_quoteString d s rest, readName?_quoteIdent d s rest⟩

end JsonSql.Sql
