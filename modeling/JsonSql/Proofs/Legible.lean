import JsonSql.Proofs.Lexer
import Mathlib.Data.Option.Basic

set_option autoImplicit false

/-!
# Texts that read as one lexeme

Quoted strings and names read back as what was quoted, and words, numbers and symbols read as
themselves where a blank, a comma or a bracket follows.
-/

namespace JsonSql.Sql

/-- Characters that end every word and number. -/
def breaks : List Char := [' ', '\n', ',', '(', ')']

/-- The rest of a text starts with a character that ends words and numbers, if there is a rest. -/
def Breaks (rest : List Char) : Prop := ∀ c ∈ rest.head?, c ∈ breaks

theorem breaks_nil : Breaks [] := by
  intro c hc
  cases hc

theorem breaks_cons {c : Char} (h : c ∈ breaks) (rest : List Char) : Breaks (c :: rest) := by
  intro x hx
  cases hx
  exact h

/-- What no breaking character satisfies does not hold of the next character. -/
theorem Breaks.head_false {p : Char → Bool} {rest : List Char} (h : Breaks rest)
    (hp : breaks.all (fun c => !p c) = true) : ∀ c ∈ rest.head?, p c = false := by
  intro c hc
  simpa using List.all_eq_true.mp hp c (h c hc)

theorem Breaks.head?_ne {rest : List Char} (h : Breaks rest) {c : Char}
    (hc : breaks.contains c = false) : rest.head? ≠ some c := by
  intro heq
  have hmem := List.contains_iff_mem.mpr (h c heq)
  rw [hc] at hmem
  cases hmem

section Quotes

variable {d : Dialect} {rest : List Char}

/-! ## Quotes -/

theorem quoted?_close {closing : Char} (escapes : Bool) (hrest : rest.head? ≠ some closing) :
    quoted? closing escapes (closing :: rest) = some ([], rest) := by
  rw [quoted?.eq_def]
  dsimp only
  rw [if_pos rfl]
  cases rest with
  | nil => rfl
  | cons c rest => exact if_neg fun h => hrest (congrArg some h)

theorem quoted?_twice (closing : Char) (escapes : Bool) (cs : List Char) :
    quoted? closing escapes (closing :: closing :: cs) =
      (quoted? closing escapes cs).map fun found => (closing :: found.1, found.2) := by
  rw [quoted?.eq_def]
  dsimp only
  rw [if_pos rfl, if_pos rfl]

theorem quoted?_escape {closing : Char} (hclosing : '\\' ≠ closing) (c : Char)
    (cs : List Char) :
    quoted? closing true ('\\' :: c :: cs) =
      (quoted? closing true cs).map fun found => (c :: found.1, found.2) := by
  rw [quoted?.eq_def]
  dsimp only
  rw [if_neg hclosing, if_pos (by decide)]

theorem quoted?_plain {closing c : Char} {escapes : Bool} (hc : c ≠ closing)
    (hescape : escapes = true → c ≠ '\\') (cs : List Char) :
    quoted? closing escapes (c :: cs) =
      (quoted? closing escapes cs).map fun found => (c :: found.1, found.2) := by
  rw [quoted?.eq_def]
  dsimp only
  rw [if_neg hc, if_neg]
  simpa using hescape

theorem quoted?_doubled (closing : Char) (cs : List Char) (hrest : rest.head? ≠ some closing) :
    quoted? closing false (doubled closing cs ++ closing :: rest) = some (cs, rest) := by
  induction cs with
  | nil => exact quoted?_close false hrest
  | cons c cs ih =>
    rw [doubled]
    by_cases hc : c = closing
    · subst hc
      rw [if_pos rfl, List.cons_append, List.cons_append, quoted?_twice, ih]
      rfl
    · rw [if_neg hc, List.cons_append, quoted?_plain hc (by simp), ih]
      rfl

/-- Where a backslash escapes, it is doubled before the quotes are. -/
theorem quoted?_escaped (cs : List Char) (hrest : rest.head? ≠ some '\x27') :
    quoted? '\x27' true (doubled '\x27' (doubled '\\' cs) ++ '\x27' :: rest) =
      some (cs, rest) := by
  induction cs with
  | nil => exact quoted?_close true hrest
  | cons c cs ih =>
    rw [doubled]
    by_cases hslash : c = '\\'
    · subst hslash
      rw [if_pos rfl, doubled, if_neg (by decide), doubled, if_neg (by decide), List.cons_append,
        List.cons_append, quoted?_escape (by decide), ih]
      rfl
    · rw [if_neg hslash, doubled]
      by_cases hc : c = '\x27'
      · subst hc
        rw [if_pos rfl, List.cons_append, List.cons_append, quoted?_twice, ih]
        rfl
      · rw [if_neg hc, List.cons_append, quoted?_plain hc (fun _ => hslash), ih]
        rfl

theorem enclosed_append (opening closing : Char) (cs : List Char) :
    enclosed opening closing cs ++ rest = opening :: (doubled closing cs ++ closing :: rest) := by
  simp [enclosed]

/-- A quoted name reads back as the name. -/
theorem lexes_name (name : String) (hrest : rest.head? ≠ some d.identQuotes.2) :
    Lexes d (d.quoteIdent name ++ rest) rest [.name name] := by
  have hopen : isGap d.identQuotes.1 = false ∧ d.identQuotes.1 ≠ '\x27' := by
    cases d <;> decide
  rw [Dialect.quoteIdent, enclosed_append]
  refine .single ?_ (by simp; omega)
  rw [Dialect.lexStep, if_neg (by simp [hopen.1]), if_neg hopen.2, if_pos rfl, Dialect.name?,
    quoted?_doubled _ _ hrest]
  simp

theorem lexStep_quote (cs : List Char) : d.lexStep ('\x27' :: cs) = d.string? cs := by
  rw [Dialect.lexStep, if_neg (by decide), if_pos rfl]

theorem string?_doubled (hd : d ≠ .mysql) (s : String) (hrest : rest.head? ≠ some '\x27') :
    d.string? (doubled '\x27' s.toList ++ '\x27' :: rest) = some ([.string s], rest) := by
  rw [Dialect.string?, decide_eq_false hd, quoted?_doubled _ _ hrest]
  simp

/-- A quoted string reads back as the string. -/
theorem lexes_string (s : String) (hrest : rest.head? ≠ some '\x27') :
    Lexes d (d.quoteString s ++ rest) rest [.string s] := by
  have hplain : d ≠ .mysql → Lexes d (enclosed '\x27' '\x27' s.toList ++ rest) rest
      [.string s] := by
    intro hd
    rw [enclosed_append]
    refine .single ?_ (by simp; omega)
    rw [lexStep_quote, string?_doubled hd s hrest]
  cases d with
  | postgres | sqlite | duckdb => exact hplain (by decide)
  | mysql =>
    rw [Dialect.quoteString, enclosed_append]
    refine .single ?_ (by simp; omega)
    rw [lexStep_quote, Dialect.string?, decide_eq_true rfl, quoted?_escaped _ hrest]
    simp
  | tsql =>
    rw [Dialect.quoteString]
    split
    · exact hplain (by decide)
    · rw [List.append_assoc, enclosed_append, List.singleton_append]
      refine .single ?_ (by simp; omega)
      rw [Dialect.lexStep, if_neg (by decide), if_neg (by decide), if_neg (by decide),
        if_pos ⟨rfl, rfl, rfl⟩, List.tail_cons, string?_doubled (by decide) s hrest]

end Quotes

/-! ## White space and symbols -/

section Symbols

variable {d : Dialect} {rest : List Char}

theorem lexes_gap {c : Char} (hc : isGap c = true) : Lexes d (c :: rest) rest [] := by
  refine .single ?_ (by simp)
  rw [Dialect.lexStep, if_pos hc]

/-- Any number of blanks. -/
theorem lexes_blanks (n : Nat) : Lexes d (List.replicate n ' ' ++ rest) rest [] := by
  induction n with
  | zero => exact .refl rest
  | succ n ih => exact (lexes_gap rfl).trans ih

/-- Characters of symbols. -/
def symbolChars : List Char := [',', '(', ')', '*', '.', '/', '-', '<', '>', '=']

theorem lexStep_symbol {c : Char} (hc : symbolChars.contains c = true) (cs : List Char) :
    d.lexStep (c :: cs) = symbol? (c :: cs) := by
  simp only [symbolChars, List.contains_iff_mem, List.mem_cons, List.not_mem_nil, or_false] at hc
  rcases hc with rfl | rfl | rfl | rfl | rfl | rfl | rfl | rfl | rfl | rfl <;> cases d <;> rfl

theorem lexes_symbol {c : Char} {cs : List Char} {lexemes : List Lexeme}
    (hc : symbolChars.contains c = true) (h : symbol? (c :: cs) = some (lexemes, rest))
    (hlength : rest.length ≤ cs.length) :
    Lexes d (c :: cs) rest lexemes := by
  refine .single ?_ (by simp; omega)
  rw [lexStep_symbol hc, h]

theorem lexes_comma : Lexes d (',' :: rest) rest [.symbol .comma] :=
  lexes_symbol rfl rfl (Nat.le_refl _)

theorem lexes_lparen : Lexes d ('(' :: rest) rest [.symbol .lparen] :=
  lexes_symbol rfl rfl (Nat.le_refl _)

theorem lexes_rparen : Lexes d (')' :: rest) rest [.symbol .rparen] :=
  lexes_symbol rfl rfl (Nat.le_refl _)

theorem lexes_star : Lexes d ('*' :: rest) rest [.symbol .star] :=
  lexes_symbol rfl rfl (Nat.le_refl _)

theorem lexes_dot (hrest : rest.head?.any Char.isDigit = false) :
    Lexes d ('.' :: rest) rest [.symbol .dot] := by
  refine lexes_symbol rfl ?_ (Nat.le_refl _)
  rw [symbol?, hrest]
  rfl

theorem lexes_minus (hrest : rest.head? ≠ some '-') : Lexes d ('-' :: rest) rest [.minus] := by
  refine lexes_symbol rfl ?_ (Nat.le_refl _)
  rw [symbol?, if_neg hrest]

/-- A symbol reads as itself where nothing can join it. -/
theorem Symbol.lexes (s : Symbol) (hrest : Breaks rest) :
    Lexes d (s.text.toList ++ rest) rest [.symbol s] := by
  have hdigit : rest.head?.any Char.isDigit = false := by
    have := hrest.head_false (p := Char.isDigit) rfl
    cases hhead : rest.head? with
    | none => rfl
    | some c => exact this c hhead
  have hne : rest.head? ≠ some '>' := hrest.head?_ne rfl
  have heq : rest.head? ≠ some '=' := hrest.head?_ne rfl
  cases s with
  | comma => exact lexes_comma
  | dot => exact lexes_dot hdigit
  | star => exact lexes_star
  | lparen => exact lexes_lparen
  | rparen => exact lexes_rparen
  | eq => exact lexes_symbol rfl rfl (Nat.le_refl _)
  | ne => exact lexes_symbol rfl rfl (by simp)
  | lte => exact lexes_symbol rfl rfl (by simp)
  | gte => exact lexes_symbol rfl rfl (by simp)
  | lt =>
    refine lexes_symbol rfl ?_ (Nat.le_refl _)
    show symbol? ('<' :: rest) = _
    rw [symbol?]
    · intro cs h
      exact hne (by rw [h]; rfl)
    · intro cs h
      exact heq (by rw [h]; rfl)
  | gt =>
    refine lexes_symbol rfl ?_ (Nat.le_refl _)
    show symbol? ('>' :: rest) = _
    rw [symbol?]
    intro cs h
    exact heq (by rw [h]; rfl)
  | div =>
    refine lexes_symbol rfl ?_ (Nat.le_refl _)
    show symbol? ('/' :: rest) = _
    rw [symbol?, if_neg (hrest.head?_ne rfl)]

end Symbols

/-! ## Words -/

/-- The characters of a word: letters, digits and underscores, of which the first is no digit. -/
def IsWord (cs : List Char) : Prop :=
  (∀ c ∈ cs, isWordChar c = true) ∧ ∃ first rest, cs = first :: rest ∧ startsWord first = true

instance (cs : List Char) : Decidable (IsWord cs) :=
  decidable_of_iff (cs.all isWordChar = true ∧ cs.head?.any startsWord = true) (by
    unfold IsWord
    cases cs with
    | nil => simp
    | cons c cs => simp)

/-- A stretch of characters that satisfy a predicate ends where one does not. -/
theorem takeWhile_append_stop {p : Char → Bool} {cs rest : List Char} (hcs : ∀ c ∈ cs, p c = true)
    (hrest : ∀ c ∈ rest.head?, p c = false) :
    (cs ++ rest).takeWhile p = cs ∧ (cs ++ rest).dropWhile p = rest := by
  induction cs with
  | nil =>
    cases rest with
    | nil => exact ⟨rfl, rfl⟩
    | cons c rest =>
      have hc : p c = false := hrest c rfl
      simp [hc]
  | cons c cs ih =>
    have hc := hcs c List.mem_cons_self
    obtain ⟨htake, hdrop⟩ := ih fun x hx => hcs x (List.mem_cons_of_mem _ hx)
    simp [hc, htake, hdrop]

section Words

variable {d : Dialect} {cs rest : List Char}

/-- The white space between lexemes and the characters that quotes open with. -/
def openers : List Char := [' ', '\n', '\t', '\r', '\x27', '"', '\x60', '[']

/-- A character that satisfies what no opening character does is read without quotes. -/
theorem lexStep_of_plain {p : Char → Bool} {c : Char} (hc : p c = true)
    (hp : openers.all (fun x => !p x) = true) (rest : List Char) :
    d.lexStep (c :: rest) =
      if d = .tsql ∧ c = 'N' ∧ rest.head? = some '\x27' then d.string? rest.tail
      else if startsWord c then word? (c :: rest)
      else if c.isDigit then number? (c :: rest)
      else symbol? (c :: rest) := by
  have hne : ∀ x, openers.contains x = true → c ≠ x := by
    rintro x hx rfl
    have hfalse := List.all_eq_true.mp hp c (List.contains_iff_mem.mp hx)
    rw [hc] at hfalse
    cases hfalse
  have hgap : isGap c = false := by
    simp [isGap, hne ' ' rfl, hne '\n' rfl, hne '\t' rfl, hne '\r' rfl]
  have hopen : c ≠ d.identQuotes.1 := hne _ (by cases d <;> rfl)
  rw [Dialect.lexStep, if_neg (by simp [hgap]), if_neg (hne '\x27' rfl), if_neg hopen]

theorem lexes_word (h : IsWord cs) (hrest : Breaks rest) :
    Lexes d (cs ++ rest) rest [.word (.ofList cs)] := by
  obtain ⟨hall, first, more, rfl, hfirst⟩ := h
  have hend : ∀ c ∈ rest.head?, isWordChar c = false := hrest.head_false rfl
  obtain ⟨htake, hdrop⟩ := takeWhile_append_stop hall hend
  -- what follows the first character is no quote
  have hnext : (more ++ rest).head? ≠ some '\x27' := by
    cases more with
    | nil => exact hrest.head?_ne rfl
    | cons c more =>
      intro heq
      have hc := hall c (by simp)
      have : c = '\x27' := Option.some.inj heq
      rw [this] at hc
      cases hc
  refine .single ?_ (by simp only [List.length_append, List.length_cons]; omega)
  rw [List.cons_append, lexStep_of_plain hfirst rfl, if_neg fun h => hnext h.2.2,
    if_pos hfirst, word?, ← List.cons_append, htake, hdrop,
    if_neg (hrest.head?_ne rfl)]

end Words

/-! ## Numbers -/

/-- The fraction of a number, or nothing. -/
inductive IsFraction : List Char → Prop
  | none : IsFraction []
  | some {ds : List Char} : ds ≠ [] → (∀ c ∈ ds, c.isDigit = true) → IsFraction ('.' :: ds)

/-- The power of ten of a number, or nothing. -/
inductive IsPower : List Char → Prop
  | none : IsPower []
  | plain {ds : List Char} : ds ≠ [] → (∀ c ∈ ds, c.isDigit = true) → IsPower ('e' :: ds)
  | negative {ds : List Char} : ds ≠ [] → (∀ c ∈ ds, c.isDigit = true) →
      IsPower ('e' :: '-' :: ds)

/-- The written form of a number without a sign. -/
inductive IsNumeral : List Char → Prop
  | mk {whole part power : List Char} : whole ≠ [] → (∀ c ∈ whole, c.isDigit = true) →
      IsFraction part → IsPower power → IsNumeral (whole ++ part ++ power)

theorem isDigit_getLast? {ds : List Char} (hne : ds ≠ []) (hds : ∀ c ∈ ds, c.isDigit = true) :
    ds.getLast?.any Char.isDigit = true := by
  rw [List.getLast?_eq_some_getLast hne]
  exact hds _ (List.getLast_mem hne)

theorem getLast?_append_any {p : Char → Bool} {xs ys : List Char}
    (h : ys ≠ [] → ys.getLast?.any p = true) (hx : xs.getLast?.any p = true) :
    (xs ++ ys).getLast?.any p = true := by
  rw [List.getLast?_append]
  cases hlast : ys.getLast? with
  | none => exact hx
  | some y =>
    have hne : ys ≠ [] := by
      rintro rfl
      cases hlast
    have hy := h hne
    rwa [hlast] at hy

section Numbers

variable {d : Dialect} {cs part power rest : List Char}

theorem IsNumeral.endsInDigit (h : IsNumeral cs) : cs.getLast?.any Char.isDigit = true := by
  obtain ⟨hne, hwhole, hpart, hpower⟩ := h
  refine getLast?_append_any (fun _ => ?_) (getLast?_append_any (fun _ => ?_)
    (isDigit_getLast? hne hwhole))
  · cases hpower with
    | none => contradiction
    | plain hds hdigits =>
      rw [List.getLast?_cons_of_ne_nil hds]
      exact isDigit_getLast? hds hdigits
    | negative hds hdigits =>
      rw [List.getLast?_cons_of_ne_nil (List.cons_ne_nil _ _), List.getLast?_cons_of_ne_nil hds]
      exact isDigit_getLast? hds hdigits
  · cases hpart with
    | none => contradiction
    | some hds hdigits =>
      rw [List.getLast?_cons_of_ne_nil hds]
      exact isDigit_getLast? hds hdigits

theorem exponent_append (h : IsPower power) (hrest : Breaks rest) :
    exponent (power ++ rest) = (power, rest) := by
  have hend : ∀ c ∈ rest.head?, c.isDigit = false := hrest.head_false rfl
  cases h with
  | none =>
    rw [List.nil_append]
    cases rest with
    | nil => rfl
    | cons c rest =>
      have hc : (c = 'e' || c = 'E') = false :=
        hrest.head_false (p := fun c => c = 'e' || c = 'E') rfl c rfl
      rw [exponent, if_neg (by simpa using hc)]
  | @plain ds hne hdigits =>
    obtain ⟨htake, hdrop⟩ := takeWhile_append_stop hdigits hend
    obtain ⟨c, ds, rfl⟩ := List.exists_cons_of_ne_nil hne
    have hc := hdigits c List.mem_cons_self
    rw [List.cons_append, exponent, if_pos (by decide)]
    have hsigned : signedDigits (c :: ds ++ rest) = (c :: ds, rest) := by
      rw [List.cons_append, signedDigits, ← List.cons_append, htake, hdrop]
      · intro _ heq
        rw [(List.cons.inj heq).1] at hc
        cases hc
      · intro _ heq
        rw [(List.cons.inj heq).1] at hc
        cases hc
    rw [hsigned]
  | negative hne hdigits =>
    obtain ⟨htake, hdrop⟩ := takeWhile_append_stop hdigits hend
    rw [List.cons_append, exponent, if_pos (by decide), List.cons_append, signedDigits, htake,
      hdrop]

theorem fraction_append (hpart : IsFraction part) (hpower : IsPower power)
    (hrest : Breaks rest) : fraction (part ++ (power ++ rest)) = (part, power ++ rest) := by
  have hend : ∀ c ∈ (power ++ rest).head?, c.isDigit = false ∧ c ≠ '.' := by
    intro c hc
    cases hpower with
    | none =>
      have := hrest.head_false (p := fun c => c.isDigit || c = '.') rfl c hc
      simpa using this
    | plain _ _ =>
      cases hc
      exact ⟨rfl, by decide⟩
    | negative _ _ =>
      cases hc
      exact ⟨rfl, by decide⟩
  cases hpart with
  | none =>
    rw [List.nil_append]
    unfold fraction
    split
    · next heq =>
      have := (hend '.' (by rw [heq]; rfl)).2
      exact absurd rfl this
    · rfl
  | some hne hdigits =>
    obtain ⟨htake, hdrop⟩ := takeWhile_append_stop hdigits fun c hc => (hend c hc).1
    rw [List.cons_append, fraction, htake, hdrop]

theorem startsWord_of_isDigit {c : Char} (hc : c.isDigit = true) : startsWord c = false := by
  have hvalue : 48 ≤ c.val.toNat ∧ c.val.toNat ≤ 57 := by
    simpa [Char.isDigit, UInt32.le_iff_toNat_le] using hc
  have hunderscore : c ≠ '_' := by
    rintro rfl
    cases hc
  have hA : 'A'.val.toNat = 65 := rfl
  have ha : 'a'.val.toNat = 97 := rfl
  unfold startsWord Char.isAlpha Char.isUpper Char.isLower
  simp only [Bool.or_eq_false_iff, decide_eq_false_iff_not, UInt32.le_iff_toNat_le, ge_iff_le,
    Bool.and_eq_false_iff]
  refine ⟨⟨?_, ?_⟩, hunderscore⟩ <;> omega

theorem lexes_number (h : IsNumeral cs) (hrest : Breaks rest) :
    Lexes d (cs ++ rest) rest [.number (.ofList cs)] := by
  have hlast := h.endsInDigit
  obtain ⟨hne, hwhole, hpart, hpower⟩ := h
  rename_i whole part power
  obtain ⟨first, more, hfirst⟩ := List.exists_cons_of_ne_nil hne
  have hdigit : first.isDigit = true := hwhole first (by rw [hfirst]; exact List.mem_cons_self)
  have hstop : rest.head?.any (fun c => isWordChar c || c = '.' || c = '\x27') = false := by
    have := hrest.head_false (p := fun c => isWordChar c || c = '.' || c = '\x27') rfl
    cases hhead : rest.head? with
    | none => rfl
    | some c => exact this c hhead
  have hend : ∀ c ∈ (part ++ (power ++ rest)).head?, c.isDigit = false := by
    intro c hc
    cases hpart with
    | some _ _ =>
      cases hc
      rfl
    | none =>
      cases hpower with
      | none => exact hrest.head_false rfl c hc
      | plain _ _ =>
        cases hc
        rfl
      | negative _ _ =>
        cases hc
        rfl
  obtain ⟨htake, hdrop⟩ := takeWhile_append_stop hwhole hend
  have hread : number? (whole ++ (part ++ (power ++ rest))) =
      some ([.number (.ofList (whole ++ part ++ power))], rest) := by
    rw [number?, hdrop, fraction_append hpart hpower hrest]
    dsimp only
    rw [exponent_append hpower hrest, htake]
    dsimp only
    rw [if_pos (by rw [hlast, hstop]; rfl)]
  rw [List.append_assoc, List.append_assoc]
  refine .single ?_ ?_
  · have hplain : first ≠ 'N' := by
      rintro rfl
      cases hdigit
    rw [hfirst] at hread ⊢
    rw [List.cons_append, lexStep_of_plain hdigit rfl, if_neg fun h => hplain h.2.1,
      startsWord_of_isDigit hdigit, if_neg Bool.false_ne_true, if_pos hdigit,
      ← List.cons_append, hread]
  · rw [hfirst]
    simp
    omega

end Numbers

end JsonSql.Sql
