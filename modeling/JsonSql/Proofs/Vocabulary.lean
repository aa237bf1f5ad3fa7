import JsonSql.Proofs.Numerals
import JsonSql.Proofs.Tidy

set_option autoImplicit false

/-!
# Lexemes of tokens

The words that statements are written with come from fixed lists, and every token of them reads on
its own.  Laid out as rendering does (`Tidy`), tokens read one after another: none of them joins or
splits.
-/

namespace JsonSql.Sql

/-! ## Vocabulary -/

/-- The functions that statements call. -/
def functionNames : List String :=
  ["LOWER", "COUNT", "SUM", "AVG", "MIN", "MAX", "DATE_PART", "DATEPART", "STRFTIME", "YEAR",
    "MONTH", "WEEK", "DAYOFMONTH", "DAYOFWEEK", "HOUR", "MINUTE", "SECOND", "JSON_ARRAY_LENGTH",
    "JSON_LENGTH", "ST_GeomFromGeoJSON", "ST_Intersects", "ST_Envelope", "MBRIntersects"]

/-- The types that statements cast to. -/
def typeNames : List String :=
  ["TEXT", "CHAR(255)", "NVARCHAR(255)", "VARCHAR", "INTEGER", "SIGNED", "INT"]

/-- What statements hold as it stands: the parts of dates, and the greatest limit. -/
def rawTexts : List String :=
  ["year", "month", "week", "day", "weekday", "hour", "minute", "second", unboundedLimit]

/-- Tokens whose text is no value of a request, or is quoted. -/
def Token.isVocabulary : Token → Bool
  | .function name => functionNames.contains name
  | .typeName name => typeNames.contains name
  | .raw text => rawTexts.contains text
  | _ => true

/-! ## Lexemes -/

/-- The lexemes of a token: a name and a string are one, with what was quoted; all else is what its
text reads as on its own. -/
def Token.lexemes (d : Dialect) : Token → List Lexeme
  | .ident name => [.name name]
  | .str s => [.string s]
  | t => (d.lex? (t.chars d)).getD []

/-- A text reads as the lexemes wherever a blank, a comma, a bracket or nothing follows. -/
def ReadsWhole (d : Dialect) (cs : List Char) (lexemes : List Lexeme) : Prop :=
  ∀ rest, Breaks rest → Lexes d (cs ++ rest) rest lexemes

/-- A token reads as its lexemes. -/
def Token.IsLegible (d : Dialect) (t : Token) : Prop := ReadsWhole d (t.chars d) (t.lexemes d)

section Texts

variable {d : Dialect} {cs : List Char} {lexemes more : List Lexeme}

theorem ReadsWhole.lex?_eq (h : ReadsWhole d cs lexemes) : d.lex? cs = some lexemes := by
  have := h [] breaks_nil
  rw [List.append_nil] at this
  exact this.lex?_eq

/-- Tokens that are not quoted have the lexemes that their text reads as. -/
theorem Token.isLegible_of_readsWhole {t : Token} (h : ReadsWhole d (t.chars d) lexemes)
    (ht : t.lexemes d = (d.lex? (t.chars d)).getD []) : t.IsLegible d := by
  rw [IsLegible, ht, h.lex?_eq]
  exact h

theorem readsWhole_nil : ReadsWhole d [] [] := by
  intro rest _
  exact .refl rest

theorem readsWhole_word (h : IsWord cs) : ReadsWhole d cs [.word (.ofList cs)] := by
  intro _ hrest
  exact lexes_word h hrest

theorem readsWhole_number (h : IsNumeral cs) : ReadsWhole d cs [.number (.ofList cs)] := by
  intro _ hrest
  exact lexes_number h hrest

/-- Two texts with a breaking character between them, which reads by itself. -/
theorem ReadsWhole.break {c : Char} {ds : List Char} {between : List Lexeme}
    (hl : ReadsWhole d cs lexemes) (hc : c ∈ breaks)
    (hbetween : ∀ rest, Lexes d (c :: rest) rest between) (hr : ReadsWhole d ds more) :
    ReadsWhole d (cs ++ c :: ds) (lexemes ++ (between ++ more)) := by
  intro rest hrest
  rw [List.append_assoc]
  exact (hl _ (breaks_cons hc _)).trans ((hbetween _).trans (hr rest hrest))

/-- Two words with a blank between them. -/
theorem ReadsWhole.blank {ds : List Char} (hl : ReadsWhole d cs lexemes)
    (hr : ReadsWhole d ds more) : ReadsWhole d (cs ++ ' ' :: ds) (lexemes ++ more) :=
  hl.break (by decide) (fun _ => lexes_gap rfl) hr

/-- A word and a number in brackets behind it. -/
theorem readsWhole_sized {ds : List Char} (hword : IsWord cs) (hnumber : IsNumeral ds) :
    ∃ lexemes, ReadsWhole d (cs ++ '(' :: (ds ++ ')' :: [])) lexemes := by
  have hclose := (readsWhole_number (d := d) hnumber).break (by decide)
    (fun _ => lexes_rparen) readsWhole_nil
  exact ⟨_, (readsWhole_word hword).break (by decide) (fun _ => lexes_lparen) hclose⟩

theorem IsNumeral.head?_ne_minus (h : IsNumeral cs) (rest : List Char) :
    (cs ++ rest).head? ≠ some '-' := by
  obtain ⟨hne, hwhole, -, -⟩ := h
  obtain ⟨c, ds, rfl⟩ := List.exists_cons_of_ne_nil hne
  intro heq
  have hc : c = '-' := Option.some.inj heq
  exact absurd (hwhole c List.mem_cons_self) (by rw [hc]; decide)

theorem readsWhole_signed (h : IsSigned cs) : ∃ lexemes, ReadsWhole d cs lexemes := by
  cases h with
  | plain h => exact ⟨_, readsWhole_number h⟩
  | negative h =>
    refine ⟨_, fun rest hrest => (lexes_minus ?_).trans (lexes_number h hrest)⟩
    exact h.head?_ne_minus rest

end Texts

/-! ## Tokens -/

section Tokens

variable {d : Dialect}

theorem readsWhole_isNotNull :
    ReadsWhole d "IS NOT NULL".toList [.word "IS", .word "NOT", .word "NULL"] := by
  have his : IsWord "IS".toList := by decide
  have hnot : IsWord "NOT".toList := by decide
  have hnull : IsWord "NULL".toList := by decide
  exact (readsWhole_word his).blank ((readsWhole_word hnot).blank (readsWhole_word hnull))

theorem Keyword.readsWhole (word : Keyword) :
    ∃ lexemes, ReadsWhole d word.text.toList lexemes := by
  have hone : ∀ cs, IsWord cs → ∃ lexemes, ReadsWhole d cs lexemes := by
    intro cs h
    exact ⟨_, readsWhole_word h⟩
  have htwo : ∀ cs ds, IsWord cs ∧ IsWord ds →
      ∃ lexemes, ReadsWhole d (cs ++ ' ' :: ds) lexemes := by
    intro cs ds h
    exact ⟨_, (readsWhole_word h.1).blank (readsWhole_word h.2)⟩
  cases word with
  | leftJoin => exact htwo "LEFT".toList "JOIN".toList (by decide)
  | groupBy => exact htwo "GROUP".toList "BY".toList (by decide)
  | orderBy => exact htwo "ORDER".toList "BY".toList (by decide)
  | fetchNext => exact htwo "FETCH".toList "NEXT".toList (by decide)
  | isNull => exact htwo "IS".toList "NULL".toList (by decide)
  | isNotNull => exact ⟨_, readsWhole_isNotNull⟩
  | _ => exact hone _ (by decide)

/-- The characters that names of functions are spelled with. -/
def functionChars : List Char := "ABCDEFGHIJKLMNOPRSTUVWXY_ceolmnprstv".toList

theorem isWord_flatMap {f : Char → List Char} {cs : List Char} (hne : cs ≠ [])
    (h : ∀ c ∈ cs, IsWord (f c)) : IsWord (cs.flatMap f) := by
  obtain ⟨c, rest, rfl⟩ := List.exists_cons_of_ne_nil hne
  refine ⟨fun x hx => ?_, ?_⟩
  · obtain ⟨y, hy, hx⟩ := List.mem_flatMap.mp hx
    exact (h y hy).1 x hx
  · obtain ⟨-, first, more, hfirst, hstarts⟩ := h c List.mem_cons_self
    exact ⟨first, more ++ rest.flatMap f, by rw [List.flatMap_cons, hfirst]; rfl, hstarts⟩

/-- Names of functions are words, also in upper case. -/
theorem readsWhole_function {name : String} (h : name ∈ functionNames) :
    ∃ lexemes, ReadsWhole d (Text.toUpper name).toList lexemes := by
  have upper : functionChars.all (fun c => decide (IsWord (Text.upperChar c))) = true := by
    decide +kernel
  have spelling : functionNames.all (fun name =>
      !name.toList.isEmpty && name.toList.all functionChars.contains) = true := by
    decide +kernel
  have hname := List.all_eq_true.mp spelling name h
  rw [Bool.and_eq_true] at hname
  have hword : IsWord (Text.toUpper name).toList := by
    rw [Text.toUpper, String.toList_ofList]
    refine isWord_flatMap (by simpa using hname.1) fun c hc => ?_
    have hchar := List.contains_iff_mem.mp (List.all_eq_true.mp hname.2 c hc)
    exact of_decide_eq_true (List.all_eq_true.mp upper c hchar)
  exact ⟨_, readsWhole_word hword⟩

theorem readsWhole_typeName {name : String} (h : name ∈ typeNames) :
    ∃ lexemes, ReadsWhole d name.toList lexemes := by
  have hsize : IsNumeral "255".toList := .ofAll rfl
  simp only [typeNames, List.mem_cons, List.not_mem_nil, or_false] at h
  rcases h with rfl | rfl | rfl | rfl | rfl | rfl | rfl
  · exact ⟨_, readsWhole_word (by decide)⟩
  · exact readsWhole_sized (show IsWord "CHAR".toList by decide) hsize
  · exact readsWhole_sized (show IsWord "NVARCHAR".toList by decide) hsize
  all_goals exact ⟨_, readsWhole_word (by decide)⟩

/-- What statements hold as it stands is the greatest limit, a number, or else a word. -/
theorem readsWhole_raw {text : String} (h : text ∈ rawTexts) :
    ∃ lexemes, ReadsWhole d text.toList lexemes := by
  have hall : rawTexts.all (fun text =>
      decide (text = unboundedLimit) || decide (IsWord text.toList)) = true := by
    decide
  have htext := List.all_eq_true.mp hall text h
  rw [Bool.or_eq_true, decide_eq_true_eq, decide_eq_true_eq] at htext
  rcases htext with rfl | hword
  · have hlimit : IsNumeral unboundedLimit.toList := .ofAll rfl
    exact ⟨_, readsWhole_number hlimit⟩
  · exact ⟨_, readsWhole_word hword⟩

/-- Truth values are words where a dialect has them, and digits where it does not. -/
theorem readsWhole_bool (b : Bool) : ∃ lexemes, ReadsWhole d (d.boolText b).toList lexemes := by
  cases d with
  | postgres | duckdb =>
    have hword : IsWord (if b then "true" else "false").toList := by
      cases b <;> decide
    exact ⟨_, readsWhole_word hword⟩
  | mysql | sqlite | tsql =>
    have hdigit : IsNumeral (if b then "1" else "0").toList := by
      cases b <;> exact .ofAll rfl
    exact ⟨_, readsWhole_number hdigit⟩

/-- The characters that separate tokens read as nothing. -/
theorem readsWhole_gap {c : Char} (hc : isGap c = true) : ReadsWhole d [c] [] := by
  intro _ _
  exact lexes_gap hc

/-- Every token of the vocabulary reads on its own. -/
theorem Token.isLegible {t : Token} (h : t.isVocabulary = true) : t.IsLegible d := by
  cases t with
  | ident name =>
    intro rest hrest
    exact lexes_name name (hrest.head?_ne (by cases d <;> rfl))
  | str s =>
    intro rest hrest
    exact lexes_string s (hrest.head?_ne rfl)
  | keyword word =>
    obtain ⟨lexemes, hread⟩ := word.readsWhole (d := d)
    exact isLegible_of_readsWhole hread rfl
  | symbol s => exact isLegible_of_readsWhole (fun rest hrest => s.lexes hrest) rfl
  | space => exact isLegible_of_readsWhole (readsWhole_gap rfl) rfl
  | newline => exact isLegible_of_readsWhole (readsWhole_gap rfl) rfl
  | indent depth => exact isLegible_of_readsWhole (fun rest _ => lexes_blanks _) rfl
  | int n =>
    obtain ⟨lexemes, hread⟩ := readsWhole_signed (d := d) (isSigned_intText n)
    exact isLegible_of_readsWhole hread rfl
  | float x =>
    cases x with
    | finite x =>
      obtain ⟨lexemes, hread⟩ := readsWhole_signed (d := d) (isSigned_finiteText x)
      exact isLegible_of_readsWhole hread rfl
    | infinite _ | nan =>
      obtain ⟨lexemes, hread⟩ := Keyword.null.readsWhole (d := d)
      exact isLegible_of_readsWhole hread rfl
  | bool b =>
    obtain ⟨lexemes, hread⟩ := readsWhole_bool (d := d) b
    exact isLegible_of_readsWhole hread rfl
  | function name =>
    obtain ⟨lexemes, hread⟩ := readsWhole_function (d := d) (List.contains_iff_mem.mp h)
    exact isLegible_of_readsWhole hread rfl
  | typeName name =>
    obtain ⟨lexemes, hread⟩ := readsWhole_typeName (d := d) (List.contains_iff_mem.mp h)
    exact isLegible_of_readsWhole hread rfl
  | raw text =>
    obtain ⟨lexemes, hread⟩ := readsWhole_raw (d := d) (List.contains_iff_mem.mp h)
    exact isLegible_of_readsWhole hread rfl

end Tokens

/-! ## Lists of tokens -/

section Lists

variable {d : Dialect}

theorem lexemes_ident (name : String) : (Token.ident name).lexemes d = [.name name] := rfl

theorem lexemes_symbol (s : Symbol) : (Token.symbol s).lexemes d = [.symbol s] := by
  have h : ReadsWhole d s.text.toList [.symbol s] := fun rest hrest => s.lexes hrest
  show (d.lex? s.text.toList).getD [] = _
  rw [h.lex?_eq]
  rfl

/-- A separator starts with a breaking character and reads by itself whatever follows. -/
theorem lexes_separator {t : Token} (h : t.isSeparator = true) :
    (∃ c cs, t.chars d = c :: cs ∧ c ∈ breaks) ∧
      ∀ rest, Lexes d (t.chars d ++ rest) rest (t.lexemes d) := by
  cases t with
  | symbol s =>
    cases s with
    | comma =>
      refine ⟨⟨',', [], rfl, by decide⟩, fun rest => ?_⟩
      rw [lexemes_symbol]
      exact lexes_comma
    | _ => cases h
  | space => exact ⟨⟨' ', [], rfl, by decide⟩, fun rest => lexes_gap rfl⟩
  | newline => exact ⟨⟨'\n', [], rfl, by decide⟩, fun rest => lexes_gap rfl⟩
  | indent depth =>
    have hlexemes : (Token.indent depth).lexemes d = [] := by
      have hread : ReadsWhole d (List.replicate (2 * depth) ' ') [] := fun rest _ => lexes_blanks _
      show (d.lex? (List.replicate (2 * depth) ' ')).getD [] = _
      rw [hread.lex?_eq]
      rfl
    cases depth with
    | zero => cases h
    | succ depth =>
      refine ⟨⟨' ', List.replicate (2 * depth + 1) ' ', rfl, by decide⟩, fun rest => ?_⟩
      rw [hlexemes]
      exact lexes_blanks _
  | _ => cases h

/-- A name in front of a dot reads as the name. -/
theorem lexes_qualifier (table : String) {rest : List Char}
    (hrest : rest.head?.any Char.isDigit = false) :
    Lexes d (d.quoteIdent table ++ '.' :: rest) rest [.name table, .symbol .dot] := by
  have hname : Lexes d (d.quoteIdent table ++ '.' :: rest) ('.' :: rest) [.name table] := by
    refine lexes_name table ?_
    cases d <;> simp [Dialect.identQuotes]
  exact hname.trans (lexes_dot hrest)

/-- Texts in brackets. -/
theorem ReadsWhole.parenthesized {cs : List Char} {lexemes : List Lexeme}
    (h : ReadsWhole d cs lexemes) (rest : List Char) :
    Lexes d ('(' :: (cs ++ ')' :: rest)) rest
      (.symbol .lparen :: (lexemes ++ [.symbol .rparen])) := by
  have hinner := (h (')' :: rest) (breaks_cons (by decide) rest)).trans lexes_rparen
  exact lexes_lparen.trans hinner

/-- Tokens as they are laid out read one after another. -/
theorem Tidy.readsWhole {ts : List Token} (h : Tidy ts) (hts : ∀ t ∈ ts, t.isVocabulary = true) :
    ReadsWhole d (ts.flatMap (Token.chars d)) (ts.flatMap (Token.lexemes d)) := by
  induction h with
  | nil => exact readsWhole_nil
  | @token t ht =>
    have := Token.isLegible (d := d) (hts t List.mem_cons_self)
    simpa [Token.IsLegible] using this
  | column table name =>
    intro rest hrest
    have hopen : (d.quoteIdent name ++ rest).head?.any Char.isDigit = false := by
      cases d <;> rfl
    have hname : Lexes d (d.quoteIdent name ++ rest) rest [.name name] :=
      lexes_name name (hrest.head?_ne (by cases d <;> rfl))
    have hread := (lexes_qualifier table hopen).trans hname
    have hchars : [Token.ident table, .symbol .dot, .ident name].flatMap (Token.chars d) ++ rest =
        d.quoteIdent table ++ '.' :: (d.quoteIdent name ++ rest) := by
      simp [Token.chars, Symbol.text]
    rw [hchars]
    simpa [lexemes_ident, lexemes_symbol] using hread
  | allColumns table =>
    intro rest hrest
    have hqualifier : Lexes d (d.quoteIdent table ++ '.' :: '*' :: rest) ('*' :: rest)
        [.name table, .symbol .dot] := lexes_qualifier table rfl
    have hread := hqualifier.trans lexes_star
    have hchars : [Token.ident table, .symbol .dot, .symbol .star].flatMap (Token.chars d) ++
        rest = d.quoteIdent table ++ '.' :: '*' :: rest := by
      simp [Token.chars, Symbol.text]
    rw [hchars]
    simpa [lexemes_ident, lexemes_symbol] using hread
  | @apart left right separator _ hseparator _ ihl ihr =>
    intro rest hrest
    obtain ⟨⟨c, cs, hcs, hc⟩, hread⟩ := lexes_separator (d := d) hseparator
    have hl := ihl fun t ht => hts t (List.mem_append_left _ ht)
    have hr := ihr fun t ht => hts t (List.mem_append_right _ (List.mem_cons_of_mem _ ht))
    rw [List.flatMap_append, List.flatMap_cons, List.append_assoc, List.append_assoc,
      List.flatMap_append, List.flatMap_cons]
    refine (hl _ ?_).trans ((hread _).trans (hr rest hrest))
    rw [hcs]
    exact breaks_cons hc _
  | @group inner _ ih =>
    intro rest hrest
    have hinner := ih fun t ht => hts t (by simp [parenthesized, ht])
    have hread := hinner.parenthesized rest
    have hchars : (parenthesized inner).flatMap (Token.chars d) ++ rest =
        '(' :: (inner.flatMap (Token.chars d) ++ ')' :: rest) := by
      simp [parenthesized, Token.chars, Symbol.text]
    rw [hchars]
    simpa [parenthesized, lexemes_symbol] using hread
  | @call t inner ht _ ih =>
    intro rest hrest
    have hinner := ih fun t ht => hts t (by simp [parenthesized, ht])
    have hfirst := Token.isLegible (d := d) (hts t List.mem_cons_self)
    have hread := (hfirst _ (breaks_cons (by decide) _)).trans (hinner.parenthesized rest)
    have hchars : (t :: parenthesized inner).flatMap (Token.chars d) ++ rest =
        t.chars d ++ '(' :: (inner.flatMap (Token.chars d) ++ ')' :: rest) := by
      simp [parenthesized, Token.chars, Symbol.text]
    rw [hchars]
    simpa [parenthesized, lexemes_symbol] using hread

/-- The text of tokens as they are laid out reads as their lexemes. -/
theorem Tidy.lex?_eq {ts : List Token} (h : Tidy ts)
    (hts : ∀ t ∈ ts, t.isVocabulary = true) :
    d.lex? (tokensText d ts).toList = some (ts.flatMap (Token.lexemes d)) := by
  rw [tokensText, String.toList_ofList]
  exact (h.readsWhole hts).lex?_eq

end Lists

end JsonSql.Sql
