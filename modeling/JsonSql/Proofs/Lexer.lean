import JsonSql.Sql.Token

set_option autoImplicit false

/-!
# Lexemes of SQL text

A reader of SQL text by the rules of a dialect: strings and quoted names with their closing
character doubled inside, `N'..'` in T-SQL, a backslash before any character in the strings of
MySQL.  It refuses comments and whatever could be read in more than one way, such as a number or a
string that touches a word.  `Lexes` says what it reads from one place of a text to another.
-/

namespace JsonSql.Sql

/-- What SQL text is made of.  Names and strings are those between the quotes, decoded. -/
inductive Lexeme where
  | word (text : String)
  | number (text : String)
  | symbol (s : Symbol)
  | minus
  | name (text : String)
  | string (text : String)
  deriving DecidableEq, Repr

/-! ## Characters -/

/-- White space between lexemes. -/
def isGap (c : Char) : Bool := c = ' ' || c = '\n' || c = '\t' || c = '\r'

/-- Characters that a word starts with. -/
def startsWord (c : Char) : Bool := c.isAlpha || c = '_'

/-- Characters of words. -/
def isWordChar (c : Char) : Bool := c.isAlphanum || c = '_'

/-! ## Quotes -/

/-- The characters up to a closing one, decoded, and those after it.  The closing character stands
for itself where it is doubled and, if there are escapes, any character after a backslash does. -/
def quoted? (closing : Char) (escapes : Bool) : List Char → Option (List Char × List Char)
  | [] => none
  | c :: cs =>
    if c = closing then
      match cs with
      | [] => some ([], [])
      | c' :: cs' =>
        if c' = closing then
          (quoted? closing escapes cs').map fun found => (closing :: found.1, found.2)
        else some ([], c' :: cs')
    else if escapes && c = '\\' then
      match cs with
      | [] => none
      | c' :: cs' => (quoted? closing escapes cs').map fun found => (c' :: found.1, found.2)
    else (quoted? closing escapes cs).map fun found => (c :: found.1, found.2)

/-- A string of a dialect whose opening quote was read. -/
def Dialect.string? (d : Dialect) (cs : List Char) : Option (List Lexeme × List Char) :=
  (quoted? '\x27' (d = .mysql) cs).map fun (text, rest) => ([.string (.ofList text)], rest)

/-- A quoted name of a dialect whose opening quote was read. -/
def Dialect.name? (d : Dialect) (cs : List Char) : Option (List Lexeme × List Char) :=
  (quoted? d.identQuotes.2 false cs).map fun (text, rest) => ([.name (.ofList text)], rest)

/-! ## Words, numbers and symbols -/

/-- A word, which must not touch a quote. -/
def word? (cs : List Char) : Option (List Lexeme × List Char) :=
  let rest := cs.dropWhile isWordChar
  if rest.head? = some '\x27' then none
  else some ([.word (.ofList (cs.takeWhile isWordChar))], rest)

/-- The fraction of a number, if there is one. -/
def fraction (cs : List Char) : List Char × List Char :=
  match cs with
  | '.' :: rest => ('.' :: rest.takeWhile Char.isDigit, rest.dropWhile Char.isDigit)
  | _ => ([], cs)

/-- The digits of a power with their sign, if there are any. -/
def signedDigits (cs : List Char) : List Char × List Char :=
  match cs with
  | '+' :: rest => ('+' :: rest.takeWhile Char.isDigit, rest.dropWhile Char.isDigit)
  | '-' :: rest => ('-' :: rest.takeWhile Char.isDigit, rest.dropWhile Char.isDigit)
  | _ => (cs.takeWhile Char.isDigit, cs.dropWhile Char.isDigit)

/-- The power of ten of a number, if there is one. -/
def exponent (cs : List Char) : List Char × List Char :=
  match cs with
  | [] => ([], [])
  | e :: rest =>
    if e = 'e' || e = 'E' then (e :: (signedDigits rest).1, (signedDigits rest).2)
    else ([], e :: rest)

/-- A number, which must end in a digit and touch no word or other number. -/
def number? (cs : List Char) : Option (List Lexeme × List Char) :=
  let (part, afterPart) := fraction (cs.dropWhile Char.isDigit)
  let (power, rest) := exponent afterPart
  let text := cs.takeWhile Char.isDigit ++ part ++ power
  if text.getLast?.any Char.isDigit &&
      !rest.head?.any fun c => isWordChar c || c = '.' || c = '\x27' then
    some ([.number (.ofList text)], rest)
  else none

/-- A symbol of one or two characters, or a minus; comments and numbers without a whole part are
refused. -/
def symbol? : List Char → Option (List Lexeme × List Char)
  | '<' :: '>' :: cs => some ([.symbol .ne], cs)
  | '<' :: '=' :: cs => some ([.symbol .lte], cs)
  | '>' :: '=' :: cs => some ([.symbol .gte], cs)
  | '<' :: cs => some ([.symbol .lt], cs)
  | '>' :: cs => some ([.symbol .gt], cs)
  | '=' :: cs => some ([.symbol .eq], cs)
  | ',' :: cs => some ([.symbol .comma], cs)
  | '(' :: cs => some ([.symbol .lparen], cs)
  | ')' :: cs => some ([.symbol .rparen], cs)
  | '*' :: cs => some ([.symbol .star], cs)
  | '.' :: cs => if cs.head?.any Char.isDigit then none else some ([.symbol .dot], cs)
  | '/' :: cs => if cs.head? = some '*' then none else some ([.symbol .div], cs)
  | '-' :: cs => if cs.head? = some '-' then none else some ([.minus], cs)
  | _ => none

/-! ## Texts -/

/-- The first lexeme of a text, or none if there is white space, and what follows. -/
def Dialect.lexStep (d : Dialect) (cs : List Char) : Option (List Lexeme × List Char) :=
  match cs with
  | [] => none
  | c :: rest =>
    if isGap c then some ([], rest)
    else if c = '\x27' then d.string? rest
    else if c = d.identQuotes.1 then d.name? rest
    else if d = .tsql ∧ c = 'N' ∧ rest.head? = some '\x27' then d.string? rest.tail
    else if startsWord c then word? cs
    else if c.isDigit then number? cs
    else symbol? cs

/-- The lexemes of a text in so many steps. -/
def Dialect.lexFrom (d : Dialect) : Nat → List Char → Option (List Lexeme)
  | _, [] => some []
  | 0, _ :: _ => none
  | fuel + 1, cs => do
    let (lexemes, rest) ← d.lexStep cs
    let more ← d.lexFrom fuel rest
    return lexemes ++ more

/-- The lexemes of a text, which takes no more steps than it has characters. -/
def Dialect.lex? (d : Dialect) (cs : List Char) : Option (List Lexeme) :=
  d.lexFrom cs.length cs

/-- The reader takes the text up to some rest for the lexemes. -/
inductive Lexes (d : Dialect) : List Char → List Char → List Lexeme → Prop
  | refl (cs : List Char) : Lexes d cs cs []
  | step {cs middle rest : List Char} {first more : List Lexeme} :
      d.lexStep cs = some (first, middle) → middle.length < cs.length →
      Lexes d middle rest more → Lexes d cs rest (first ++ more)

namespace Lexes

variable {d : Dialect} {cs middle rest : List Char} {first more : List Lexeme}

theorem single (h : d.lexStep cs = some (first, rest)) (hlength : rest.length < cs.length) :
    Lexes d cs rest first := by
  have := Lexes.step h hlength (.refl rest)
  rwa [List.append_nil] at this

theorem trans (hl : Lexes d cs middle first) (hr : Lexes d middle rest more) :
    Lexes d cs rest (first ++ more) := by
  induction hl with
  | refl cs => exact hr
  | step hstep hlength _ ih =>
    rw [List.append_assoc]
    exact .step hstep hlength (ih hr)

theorem lexFrom_eq (h : Lexes d cs [] first) {fuel : Nat} (hfuel : cs.length ≤ fuel) :
    d.lexFrom fuel cs = some first := by
  generalize hend : ([] : List Char) = rest at h
  induction h generalizing fuel with
  | refl cs =>
    subst hend
    cases fuel <;> rfl
  | @step cs middle rest first more hstep hlength _ ih =>
    cases fuel with
    | zero => omega
    | succ fuel =>
      cases cs with
      | nil => cases hlength
      | cons c cs =>
        have hlength' : middle.length ≤ fuel := by
          simp only [List.length_cons] at hlength hfuel
          omega
        rw [Dialect.lexFrom, hstep]
        · dsimp only [Option.bind_eq_bind, Option.bind_some]
          rw [ih hlength' hend]
          rfl
        · exact List.cons_ne_nil c cs

/-- A text that is read to its end has these lexemes. -/
theorem lex?_eq (h : Lexes d cs [] first) : d.lex? cs = some first :=
  h.lexFrom_eq (Nat.le_refl _)

end Lexes

end JsonSql.Sql
