set_option autoImplicit false

/-!
# Aliases

Names for joined tables.  Sequential aliases are `j1`, `j2` and so on.  Random aliases are words of
letters from a given stream: none is issued twice, none is a reserved word, and words get longer
where the short ones run out.
-/

namespace JsonSql

/-- How aliases are spelled. -/
inductive AliasStyle where
  | random
  | sequential
  deriving DecidableEq, Repr, Inhabited

/-- The name of a style. -/
def AliasStyle.name : AliasStyle → String
  | random => "random"
  | sequential => "sequential"

/-- The style with a name. -/
def AliasStyle.ofName? (s : String) : Option AliasStyle :=
  [AliasStyle.random, .sequential].find? fun style => style.name = s

namespace Alias

/-- The sequential alias that is issued after `k` others. -/
def sequential (k : Nat) : String := "j" ++ toString (k + 1)

/-! ## Random aliases -/

/-- An endless stream of letters. -/
abbrev Letters := Nat → Fin 26

/-- The letter `a` and those after it. -/
def letter (i : Fin 26) : Char := Char.ofNat (97 + i)

/-- The word of so many letters of a stream from a place on. -/
def word (letters : Letters) (start length : Nat) : String :=
  .ofList ((List.range' start length).map fun i => letter (letters i))

/-- Words that no alias spells. -/
def reserved : List String :=
  ["and", "as", "asc", "by", "case", "cross", "desc", "else", "end", "fetch", "first", "from",
    "full", "group", "in", "inner", "is", "join", "left", "like", "limit", "not", "null", "nulls",
    "on", "or", "order", "outer", "right", "rows", "select", "table", "then", "union", "using",
    "when", "where", "with"]

/-- How many words in a row may be taken before words get longer. -/
def maxCollisions : Nat := 64

/-- A source of random aliases. -/
structure Source where
  /-- the length of words -/
  length : Nat
  issued : List String := []
  /-- the number of letters that are used up -/
  used : Nat := 0
  deriving Repr, Inhabited

/-- The source of aliases that start with a length. -/
def Source.ofLength (length : Nat) : Source := { length := max length 1 }

/-- A word that may be issued. -/
def Source.isFree (s : Source) (candidate : String) : Bool :=
  !reserved.contains candidate && !s.issued.contains candidate

/-- The length of the longest word that may not be issued. -/
def Source.longestTaken (s : Source) : Nat :=
  (reserved ++ s.issued).foldl (fun longest w => max longest w.length) 0

/-- The first free word of one length among so many, and the place of the next letter. -/
def firstFree (letters : Letters) (isFree : String → Bool) (length : Nat) :
    (tries used : Nat) → Option String × Nat
  | 0, used => (none, used)
  | tries + 1, used =>
    let candidate := word letters used length
    if isFree candidate then (some candidate, used + length)
    else firstFree letters isFree length tries (used + length)

/-- A free word of a length or, after too many that are taken, of a greater one.  A word that is
longer than all that are taken is free at once. -/
def draw (letters : Letters) (isFree : String → Bool) :
    (wider length used : Nat) → String × Nat × Nat
  | 0, length, used => (word letters used length, length, used + length)
  | wider + 1, length, used =>
    match firstFree letters isFree length maxCollisions used with
    | (some name, used) => (name, length, used)
    | (none, used) => draw letters isFree wider (length + 1) used

/-- The next alias of a source. -/
def Source.next (letters : Letters) (s : Source) : String × Source :=
  let (name, length, used) :=
    draw letters s.isFree (s.longestTaken + 1 - s.length) s.length s.used
  (name, { length, issued := name :: s.issued, used })

/-- The source after so many aliases. -/
def Source.after (letters : Letters) (length : Nat) : Nat → Source
  | 0 => .ofLength length
  | k + 1 => ((Source.after letters length k).next letters).2

/-- The random alias that is issued after `k` others. -/
def random (letters : Letters) (length k : Nat) : String :=
  ((Source.after letters length k).next letters).1

/-- The aliases of a style in the order of issue. -/
def names (style : AliasStyle) (length : Nat) (letters : Letters) : Nat → String :=
  match style with
  | .sequential => sequential
  | .random => random letters length

example : random (fun _ => 0) 1 0 = "a" ∧ random (fun _ => 0) 1 1 = "aa" := by decide +kernel

end Alias

end JsonSql
