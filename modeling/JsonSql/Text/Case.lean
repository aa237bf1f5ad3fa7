import JsonSql.Text.CaseTable

set_option autoImplicit false

/-!
# Lower and upper case

Full case mapping of a text: a character may become several, and a capital sigma becomes a final
sigma where a word ends at it.
-/

namespace JsonSql.Text

/-- Membership in a list of ranges that holds both ends of each. -/
def inRanges (ranges : List (Nat × Nat)) (n : Nat) : Bool :=
  ranges.any fun (first, last) => first ≤ n && n ≤ last

/-- The image of a code point under a list of mapping ranges, if one of them holds it. -/
def shiftBy (ranges : List (Nat × Nat × Nat × Int)) (n : Nat) : Option Nat :=
  ranges.findSome? fun (first, last, step, shift) =>
    if first ≤ n && n ≤ last && (n - first) % step = 0 then some (n + shift).toNat else none

/-- The image of a character under a one-to-many and a one-to-one mapping. -/
def mapChar (several : List (Nat × List Nat)) (single : List (Nat × Nat × Nat × Int)) (c : Char) :
    List Char :=
  match several.lookup c.toNat with
  | some images => images.map Char.ofNat
  | none => match shiftBy single c.toNat with
    | some image => [Char.ofNat image]
    | none => [c]

/-- The lower case of a character on its own. -/
def lowerChar (c : Char) : List Char :=
  mapChar CaseTable.lowerSeveral CaseTable.lower c

/-- The upper case of a character. -/
def upperChar (c : Char) : List Char :=
  mapChar CaseTable.upperSeveral CaseTable.upper c

/-- Past characters that case ignores, the next one is a cased letter. -/
def startsCased (cs : List Char) : Bool :=
  match cs.dropWhile fun c => inRanges CaseTable.ignorable c.toNat with
  | [] => false
  | c :: _ => inRanges CaseTable.cased c.toNat

/-- The capital sigma, whose lower case depends on its neighbours. -/
def capitalSigma : Char := 'Σ'

/-- The lower case of characters of which `before` (nearest first) stand in front: a capital sigma
that ends a word becomes a final sigma. -/
def lowerChars : (before : List Char) → List Char → List Char
  | _, [] => []
  | before, c :: cs =>
    (if c = capitalSigma then
      if startsCased before && !startsCased cs then ['ς'] else ['σ']
    else lowerChar c) ++ lowerChars (c :: before) cs

/-- The text in lower case. -/
def toLower (s : String) : String :=
  .ofList (lowerChars [] s.toList)

/-- The text in upper case. -/
def toUpper (s : String) : String :=
  .ofList (s.toList.flatMap upperChar)

/-- The text with the letters `A` to `Z` in lower case and all else as it is. -/
def toLowerAscii (s : String) : String :=
  .ofList (s.toList.map Char.toLower)

example : toLower "ΟΔΟΣ ΑΣ. Σ" = "οδος ας. σ" := by decide +kernel
example : toUpper "straße" = "STRASSE" := by decide +kernel
example : toLower "İ" = "i̇" := by decide +kernel

end JsonSql.Text
