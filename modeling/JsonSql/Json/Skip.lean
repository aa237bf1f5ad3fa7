import JsonSql.Json.Number
import JsonSql.Json.Quoted

set_option autoImplicit false

/-!
# Passing over JSON values

A value of which nothing is kept has to follow the grammar and no more: its numbers may be as large,
its containers as deep and its surrogates as lone as they like.  The containers that are open while
a value is passed over are data, the innermost one first, so that no depth is too great.
-/

namespace JsonSql

/-! ## Scalars -/

/-- What follows a string, after its opening quote. -/
def skipString? : List Char → Option (List Char)
  | [] => none
  | '"' :: rest => some rest
  | '\\' :: 'u' :: a :: b :: c :: d :: rest =>
    if (hexUnit? a b c d).isSome then skipString? rest else none
  | '\\' :: c :: rest => if (escapedChar? c).isSome then skipString? rest else none
  | c :: rest => if c.toNat < 0x20 || c = '\\' then none else skipString? rest

/-- What follows a number. -/
def skipNumber? (cs : List Char) : Option (List Char) := do
  let cs := match cs with
    | '-' :: rest => rest
    | _ => cs
  let (_, cs) ← wholeDigits? cs
  let (_, cs) ← fractionDigits? cs
  let (_, cs) ← powerDigits? cs
  return cs

/-- What follows a value that is no container. -/
def skipScalar? (cs : List Char) : Option (List Char) :=
  match cs with
  | 'n' :: 'u' :: 'l' :: 'l' :: rest => some rest
  | 't' :: 'r' :: 'u' :: 'e' :: rest => some rest
  | 'f' :: 'a' :: 'l' :: 's' :: 'e' :: rest => some rest
  | '"' :: rest => skipString? rest
  | cs => skipNumber? cs

/-! ## Containers -/

/-- A container of values. -/
inductive Container where
  | array
  | object
  deriving DecidableEq, Repr, Inhabited

/-- The character that ends a container. -/
def Container.closer : Container → Char
  | array => ']'
  | object => '\x7d'

/-- Where the next value of a container stands: in an object after a key and its colon. -/
def Container.next? : Container → List Char → Option (List Char)
  | array, cs => some cs
  | object, cs =>
    match skipBlanks cs with
    | '"' :: rest => do
      match skipBlanks (← skipString? rest) with
      | ':' :: rest => some rest
      | _ => none
    | _ => none

/-- After a value, past the ends of the containers that end there, to the next value of the one that
goes on. -/
def skipEnds? : (within : List Container) → List Char → Option (List Container × List Char)
  | [], cs => some ([], cs)
  | c :: outer, cs =>
    match skipBlanks cs with
    | [] => none
    | mark :: rest =>
      if mark = ',' then (c.next? rest).map fun rest => (c :: outer, rest)
      else if mark = c.closer then skipEnds? outer rest
      else none

/-- Into a container, after its opening character. -/
def skipInto? (c : Container) (within : List Container) (cs : List Char) :
    Option (List Container × List Char) :=
  let cs := skipBlanks cs
  if cs.head? = some c.closer then skipEnds? within (cs.drop 1)
  else (c.next? cs).map fun rest => (c :: within, rest)

/-- From a value to the next one: into it if it is a container, past it if not. -/
def skipStep? (within : List Container) (cs : List Char) :
    Option (List Container × List Char) :=
  match skipBlanks cs with
  | '[' :: rest => skipInto? .array within rest
  | '\x7b' :: rest => skipInto? .object within rest
  | cs => (skipScalar? cs).bind (skipEnds? within)

/-- What follows the outermost of the open containers, or a value if none is open.  Each round takes
a value. -/
def skipFrom? : (rounds : Nat) → (within : List Container) → List Char → Option (List Char)
  | 0, _, _ => none
  | rounds + 1, within, cs =>
    match skipStep? within cs with
    | none => none
    | some ([], rest) => some rest
    | some (within, rest) => skipFrom? rounds within rest

/-- What follows a value of at most so many values, itself included. -/
def skipValue? (rounds : Nat) (cs : List Char) : Option (List Char) := skipFrom? rounds [] cs

example : skipValue? 4 "[1e999, \x7b\"\\ud800\": []\x7d] ,".toList = some " ,".toList := by
  decide +kernel
example : skipValue? 9 "[1,]".toList = none := by decide +kernel

end JsonSql
