import JsonSql.Text.Case
import Mathlib.Data.List.Infix
import Mathlib.Data.List.TakeWhile

set_option autoImplicit false

/-!
# Final sigmas

The lower case of a part of a text is not always a part of the lower case of the text: whether the
lower case of a capital sigma is a final sigma is told by what stands around it, which may lie
outside the part (`lowerWithin`).  This concerns a capital sigma that begins the part and one that
ends it, past characters that case ignores (`beginsWithSigma`, `endsWithSigma`).  A part without
them is in lower case what it is within every text, and a part with one of them is something else
next to a letter.
-/

namespace JsonSql.Text

/-! ## Cased letters ahead -/

/-- A character that case ignores. -/
def isIgnorable (c : Char) : Bool := inRanges CaseTable.ignorable c.toNat

theorem startsCased_cons_of_isIgnorable {c : Char} (h : isIgnorable c = true) (cs : List Char) :
    startsCased (c :: cs) = startsCased cs := by
  unfold startsCased
  rw [List.dropWhile_cons_of_pos (p := fun c : Char => inRanges CaseTable.ignorable c.toNat) h]

theorem startsCased_cons_of_not_isIgnorable {c : Char} (h : isIgnorable c = false)
    (cs : List Char) : startsCased (c :: cs) = inRanges CaseTable.cased c.toNat := by
  have hnot : ¬inRanges CaseTable.ignorable c.toNat = true := by
    rw [isIgnorable] at h
    rw [h]
    exact Bool.false_ne_true
  unfold startsCased
  rw [List.dropWhile_cons_of_neg (p := fun c : Char => inRanges CaseTable.ignorable c.toNat) hnot]

/-- Past characters that case ignores stands what stands behind them. -/
theorem startsCased_append_of_ignorable {cs : List Char} (h : ∀ c ∈ cs, isIgnorable c = true)
    (rest : List Char) : startsCased (cs ++ rest) = startsCased rest := by
  induction cs with
  | nil => rfl
  | cons c cs ih =>
    rw [List.cons_append, startsCased_cons_of_isIgnorable (h c List.mem_cons_self),
      ih fun d hd => h d (List.mem_cons_of_mem _ hd)]

/-- What stands behind a character that case does not ignore does not count. -/
theorem startsCased_append_of_mem {cs : List Char} {c : Char} (hc : c ∈ cs)
    (h : isIgnorable c = false) (rest : List Char) :
    startsCased (cs ++ rest) = startsCased cs := by
  induction cs with
  | nil => cases hc
  | cons d cs ih =>
    rw [List.cons_append]
    cases hd : isIgnorable d with
    | false =>
      rw [startsCased_cons_of_not_isIgnorable hd, startsCased_cons_of_not_isIgnorable hd]
    | true =>
      have hmem : c ∈ cs := (List.mem_cons.mp hc).resolve_left fun heq => by
        rw [← heq, h] at hd
        cases hd
      rw [startsCased_cons_of_isIgnorable hd, startsCased_cons_of_isIgnorable hd, ih hmem]

/-- A cased letter ahead stays ahead. -/
theorem startsCased_append_of_startsCased {cs : List Char} (h : startsCased cs = true)
    (rest : List Char) : startsCased (cs ++ rest) = true := by
  induction cs with
  | nil => cases h
  | cons c cs ih =>
    rw [List.cons_append]
    cases hc : isIgnorable c with
    | false =>
      rw [startsCased_cons_of_not_isIgnorable hc] at h ⊢
      exact h
    | true =>
      rw [startsCased_cons_of_isIgnorable hc] at h ⊢
      exact ih h

theorem isIgnorable_capitalSigma : isIgnorable capitalSigma = false := by decide +kernel

/-! ## Parts of texts -/

/-- The lower case of characters of which `before` (nearest first) stand in front and `after` stand
behind. -/
def lowerWithin (after : List Char) : (before : List Char) → List Char → List Char
  | _, [] => []
  | before, c :: cs =>
    (if c = capitalSigma then
      if startsCased before && !startsCased (cs ++ after) then ['ς'] else ['σ']
    else lowerChar c) ++ lowerWithin after (c :: before) cs

theorem lowerWithin_nil (before cs : List Char) :
    lowerWithin [] before cs = lowerChars before cs := by
  induction cs generalizing before with
  | nil => rfl
  | cons c cs ih => rw [lowerWithin, lowerChars, ih, List.append_nil]

theorem lowerWithin_append (after before cs ds : List Char) :
    lowerWithin after before (cs ++ ds) =
      lowerWithin (ds ++ after) before cs ++ lowerWithin after (cs.reverse ++ before) ds := by
  induction cs generalizing before with
  | nil => rfl
  | cons c cs ih =>
    rw [List.cons_append, lowerWithin, ih, lowerWithin, List.append_assoc, List.append_assoc,
      List.reverse_cons, List.append_assoc]
    rfl

/-- What stands behind a character that case does not ignore does not count for what stands in front
of that character. -/
theorem lowerWithin_append_of_mem {after : List Char} {c : Char} (hc : c ∈ after)
    (h : isIgnorable c = false) (rest before cs : List Char) :
    lowerWithin (after ++ rest) before cs = lowerWithin after before cs := by
  induction cs generalizing before with
  | nil => rfl
  | cons d cs ih =>
    have hsame := startsCased_append_of_mem (List.mem_append_right cs hc) h rest
    rw [lowerWithin, lowerWithin, ih, ← List.append_assoc, hsame]

/-- What stands in front of a character that case does not ignore does not count for what stands
behind that character. -/
theorem lowerWithin_of_mem_before {before : List Char} {c : Char} (hc : c ∈ before)
    (h : isIgnorable c = false) (rest after cs : List Char) :
    lowerWithin after (before ++ rest) cs = lowerWithin after before cs := by
  induction cs generalizing before with
  | nil => rfl
  | cons d cs ih =>
    rw [lowerWithin, lowerWithin, startsCased_append_of_mem hc h, ← List.cons_append,
      ih (List.mem_cons_of_mem d hc)]

/-- No sigma is among characters that case ignores. -/
theorem lowerWithin_of_ignorable {cs : List Char} (h : ∀ c ∈ cs, isIgnorable c = true)
    (after before : List Char) : lowerWithin after before cs = cs.flatMap lowerChar := by
  induction cs generalizing before with
  | nil => rfl
  | cons c cs ih =>
    have hc : c ≠ capitalSigma := by
      rintro rfl
      exact absurd (h _ List.mem_cons_self) (by rw [isIgnorable_capitalSigma]; decide)
    rw [lowerWithin, if_neg hc, ih fun d hd => h d (List.mem_cons_of_mem _ hd)]
    rfl

/-- Characters that case ignores, and the first one behind them that it does not. -/
theorem exists_dropWhile_isIgnorable (cs : List Char) :
    (∀ c ∈ cs, isIgnorable c = true) ∨
      ∃ skipped c rest, cs = skipped ++ c :: rest ∧ (∀ d ∈ skipped, isIgnorable d = true) ∧
        isIgnorable c = false ∧ cs.dropWhile isIgnorable = c :: rest := by
  induction cs with
  | nil => exact .inl nofun
  | cons c cs ih =>
    cases hc : isIgnorable c with
    | false =>
      refine .inr ⟨[], c, cs, rfl, nofun, hc, ?_⟩
      rw [List.dropWhile_cons_of_neg (by rw [hc]; exact Bool.false_ne_true)]
    | true =>
      rcases ih with hall | ⟨skipped, d, rest, hcs, hskipped, hd, hdrop⟩
      · exact .inl (List.forall_mem_cons.mpr ⟨hc, hall⟩)
      · refine .inr ⟨c :: skipped, d, rest, congrArg (c :: ·) hcs,
          List.forall_mem_cons.mpr ⟨hc, hskipped⟩, hd, ?_⟩
        rw [List.dropWhile_cons_of_pos hc, hdrop]

/-- Characters that case ignores, and the last one in front of them that it does not. -/
theorem exists_dropWhile_reverse (cs : List Char) :
    (∀ c ∈ cs, isIgnorable c = true) ∨
      ∃ front c skipped, cs = front ++ c :: skipped ∧ (∀ d ∈ skipped, isIgnorable d = true) ∧
        isIgnorable c = false ∧ cs.reverse.dropWhile isIgnorable = c :: front.reverse := by
  rcases exists_dropWhile_isIgnorable cs.reverse with hall | ⟨skipped, c, front, hcs, hskipped, hc,
    hdrop⟩
  · exact .inl fun c hc => hall c (List.mem_reverse.mpr hc)
  · refine .inr ⟨front.reverse, c, skipped.reverse, ?_,
      fun d hd => hskipped d (List.mem_reverse.mp hd), hc, by rw [List.reverse_reverse, hdrop]⟩
    rw [← List.reverse_reverse cs, hcs, List.reverse_append, List.reverse_cons, List.append_assoc]
    rfl

/-! ## Sigmas at the ends of a part -/

/-- The first character that case does not ignore is a capital sigma, with no cased letter
behind it. -/
def beginsWithSigma (cs : List Char) : Bool :=
  match cs.dropWhile isIgnorable with
  | [] => false
  | c :: rest => c = capitalSigma && !startsCased rest

/-- The last character that case does not ignore is a capital sigma, with a cased letter in front
of it. -/
def endsWithSigma (cs : List Char) : Bool :=
  match cs.reverse.dropWhile isIgnorable with
  | [] => false
  | c :: before => c = capitalSigma && startsCased before

/-- What stands in front does not count unless a sigma begins the part. -/
theorem lowerWithin_of_not_beginsWithSigma {cs : List Char} (h : beginsWithSigma cs = false)
    (after before : List Char) : lowerWithin after before cs = lowerWithin after [] cs := by
  rcases exists_dropWhile_isIgnorable cs with hall | ⟨skipped, c, rest, rfl, hskipped, hc, hdrop⟩
  · rw [lowerWithin_of_ignorable hall, lowerWithin_of_ignorable hall]
  · have hsigma (front : List Char) : (if c = capitalSigma then
        if startsCased front && !startsCased (rest ++ after) then ['ς'] else ['σ']
        else lowerChar c) = if c = capitalSigma then ['σ'] else lowerChar c := by
      split
      · next heq =>
        rw [beginsWithSigma, hdrop] at h
        have hcased : startsCased rest = true := by simpa [heq] using h
        rw [startsCased_append_of_startsCased hcased, Bool.not_true, Bool.and_false,
          if_neg Bool.false_ne_true]
      · rfl
    have hrest (front : List Char) :=
      lowerWithin_of_mem_before (List.mem_cons_self : c ∈ c :: skipped.reverse) hc front after rest
    rw [lowerWithin_append, lowerWithin_append, lowerWithin_of_ignorable hskipped,
      lowerWithin_of_ignorable hskipped, lowerWithin, lowerWithin, hsigma, hsigma,
      ← List.cons_append, ← List.cons_append, hrest, hrest]

/-- What stands behind does not count unless a sigma ends the part. -/
theorem lowerWithin_of_not_endsWithSigma {cs : List Char} (h : endsWithSigma cs = false)
    (after : List Char) : lowerWithin after [] cs = lowerWithin [] [] cs := by
  rcases exists_dropWhile_reverse cs with hall | ⟨front, c, skipped, rfl, hskipped, hc, hdrop⟩
  · rw [lowerWithin_of_ignorable hall, lowerWithin_of_ignorable hall]
  · have hsigma (behind : List Char) : (if c = capitalSigma then
        if startsCased front.reverse && !startsCased behind then ['ς'] else ['σ']
        else lowerChar c) = if c = capitalSigma then ['σ'] else lowerChar c := by
      split
      · next heq =>
        rw [endsWithSigma, hdrop] at h
        have hcased : startsCased front.reverse = false := by simpa [heq] using h
        rw [hcased, Bool.false_and, if_neg Bool.false_ne_true]
      · rfl
    have hmem : c ∈ c :: skipped := List.mem_cons_self
    rw [lowerWithin_append, lowerWithin_append, lowerWithin_append_of_mem hmem hc,
      lowerWithin_append_of_mem hmem hc, List.append_nil, lowerWithin, lowerWithin, hsigma, hsigma,
      lowerWithin_of_ignorable hskipped, lowerWithin_of_ignorable hskipped]

/-! ## Sigmas next to a letter -/

/-- A cased letter whose lower case is one character. -/
def capitalAlpha : Char := 'Α'

theorem startsCased_capitalAlpha (cs : List Char) : startsCased (capitalAlpha :: cs) = true := by
  rw [startsCased_cons_of_not_isIgnorable (by decide +kernel)]
  decide +kernel

theorem lowerChar_capitalAlpha : lowerChar capitalAlpha = ['α'] := by decide +kernel

/-- A letter in front of a sigma that begins a part makes a final sigma of it. -/
theorem count_lowerChars_cons {cs : List Char} (h : beginsWithSigma cs = true) :
    (lowerChars [] cs).count 'σ' = (lowerChars [] (capitalAlpha :: cs)).count 'σ' + 1 := by
  rcases exists_dropWhile_isIgnorable cs with hall | ⟨skipped, c, rest, hcs, hskipped, hc, hdrop⟩
  · rw [beginsWithSigma, List.dropWhile_eq_nil_iff.mpr hall] at h
    cases h
  · rw [beginsWithSigma, hdrop, Bool.and_eq_true, decide_eq_true_eq, Bool.not_eq_true'] at h
    obtain ⟨rfl, hrest⟩ := h
    have hreverse : ∀ d ∈ skipped.reverse, isIgnorable d = true :=
      fun d hd => hskipped d (List.mem_reverse.mp hd)
    have hfront (before : List Char) : lowerChars before cs = skipped.flatMap lowerChar ++
        (if startsCased before then 'ς' else 'σ') ::
          lowerWithin [] (capitalSigma :: skipped.reverse) rest := by
      rw [← lowerWithin_nil, hcs, lowerWithin_append, lowerWithin_of_ignorable hskipped,
        lowerWithin, if_pos rfl, startsCased_append_of_ignorable hreverse, List.append_nil, hrest,
        ← List.cons_append, lowerWithin_of_mem_before List.mem_cons_self hc]
      cases startsCased before <;> rfl
    rw [lowerChars, if_neg (by decide), lowerChar_capitalAlpha, hfront, hfront,
      startsCased_capitalAlpha, if_pos rfl, if_neg (by decide)]
    simp only [List.count_append, List.count_cons, List.count_nil, Char.reduceBEq, BEq.rfl, if_true,
      Bool.false_eq_true, if_false]
    omega

/-- A letter behind a final sigma that ends a part makes another sigma of it. -/
theorem count_lowerChars_concat {cs : List Char} (h : endsWithSigma cs = true) :
    (lowerChars [] cs).count 'ς' = (lowerChars [] (cs ++ [capitalAlpha])).count 'ς' + 1 := by
  rcases exists_dropWhile_reverse cs with hall | ⟨front, c, skipped, hcs, hskipped, hc, hdrop⟩
  · have hnone : cs.reverse.dropWhile isIgnorable = [] :=
      List.dropWhile_eq_nil_iff.mpr fun c hc => hall c (List.mem_reverse.mp hc)
    rw [endsWithSigma, hnone] at h
    cases h
  · rw [endsWithSigma, hdrop, Bool.and_eq_true, decide_eq_true_eq] at h
    obtain ⟨rfl, hfront⟩ := h
    have hbehind (after : List Char) : lowerWithin after [] cs =
        lowerWithin (capitalSigma :: skipped) [] front ++
          (if startsCased after then 'σ' else 'ς') :: skipped.flatMap lowerChar := by
      rw [hcs, lowerWithin_append, lowerWithin_append_of_mem List.mem_cons_self hc,
        List.append_nil, lowerWithin, if_pos rfl, hfront,
        startsCased_append_of_ignorable hskipped, lowerWithin_of_ignorable hskipped]
      cases startsCased after <;> rfl
    rw [← lowerWithin_nil, ← lowerWithin_nil, lowerWithin_append, List.append_nil, hbehind, hbehind,
      startsCased_capitalAlpha, if_pos rfl, if_neg (by decide), lowerWithin, if_neg (by decide),
      lowerChar_capitalAlpha, lowerWithin]
    simp only [List.count_append, List.count_cons, List.count_nil, Char.reduceBEq, BEq.rfl, if_true,
      Bool.false_eq_true, if_false]
    omega

end JsonSql.Text
