import JsonSql.Proofs.Aliases
import Mathlib.Order.Monotone.Basic

set_option autoImplicit false

/-!
# The loop that draws aliases

A source tries one word after another until one is free, and takes longer words after too many in a
row that are taken.  `Source.Issues` is this loop.  A word that is longer than all that are taken
is free, and no alias is longer than the words that its source tries, so the loop ends: after a
number of words that depends on neither the letters nor the aliases issued before
(`issues_random`).  What the loop keeps is read off it in one induction (`Source.Issues.spec`).
-/

namespace JsonSql

namespace Alias

variable {letters : Letters} {s s' : Source} {name : String} {collisions tries : Nat}

/-! ## The loop -/

namespace Source

/-- The word that is tried after so many others of its length. -/
def tried (letters : Letters) (s : Source) (others : Nat) : String :=
  word letters (s.used + others * s.length) s.length

/-- The word that is tried next. -/
def candidate (letters : Letters) (s : Source) : String := word letters s.used s.length

/-- The source behind the letters of its next word. -/
def skip (s : Source) : Source := { s with used := s.used + s.length }

/-- The source with longer words. -/
def widened (s : Source) : Source := { s with length := s.length + 1 }

/-- The source with an alias issued. -/
def record (s : Source) (name : String) : Source := { s with issued := name :: s.issued }

theorem tried_zero (letters : Letters) (s : Source) : s.tried letters 0 = s.candidate letters := by
  rw [tried, Nat.zero_mul, Nat.add_zero, candidate]

theorem tried_succ (letters : Letters) (s : Source) (others : Nat) :
    s.tried letters (others + 1) = s.skip.tried letters others := by
  have hplace : s.used + (others + 1) * s.length = s.used + s.length + others * s.length := by
    rw [Nat.succ_mul]
    omega
  rw [tried, hplace]
  rfl

/-- From a source of which the last so many words in a row were taken, the loop comes after so many
tries to an alias, and leaves the source as it then is. -/
inductive Issues (letters : Letters) : Nat → Source → Nat → String → Source → Prop
  | free {collisions : Nat} {s : Source} : s.isFree (s.candidate letters) = true →
      Issues letters collisions s 1 (s.candidate letters) (s.skip.record (s.candidate letters))
  | taken {collisions tries : Nat} {s s' : Source} {name : String} :
      s.isFree (s.candidate letters) = false → collisions + 1 < maxCollisions →
      Issues letters (collisions + 1) s.skip tries name s' →
      Issues letters collisions s (tries + 1) name s'
  | crowded {collisions tries : Nat} {s s' : Source} {name : String} :
      s.isFree (s.candidate letters) = false → collisions + 1 = maxCollisions →
      Issues letters 0 s.skip.widened tries name s' →
      Issues letters collisions s (tries + 1) name s'

/-- The alias is free, as long as the words of its source are by then, and recorded; and words only
get longer. -/
theorem Issues.spec (h : s.Issues letters collisions tries name s') :
    s.isFree name = true ∧ s'.issued = name :: s.issued ∧ name.length = s'.length ∧
      s.length ≤ s'.length := by
  induction h with
  | free hfree => exact ⟨hfree, rfl, length_word _ _ _, Nat.le_refl _⟩
  | taken _ _ _ ih => exact ih
  | crowded _ _ _ ih =>
    obtain ⟨hfree, hissued, hlength, hle⟩ := ih
    exact ⟨hfree, hissued, hlength, Nat.le_of_succ_le hle⟩

/-- Words get no longer unless as many as that in a row are taken. -/
theorem Issues.length_eq (h : s.Issues letters collisions tries name s') {others : Nat}
    (hothers : collisions + others < maxCollisions)
    (hfree : s.isFree (s.tried letters others) = true) : s'.length = s.length := by
  induction h generalizing others with
  | free _ => rfl
  | taken htaken _ _ ih =>
    cases others with
    | zero =>
      rw [tried_zero, htaken] at hfree
      cases hfree
    | succ others =>
      rw [tried_succ] at hfree
      exact ih (by omega) hfree
  | crowded htaken hcount _ _ =>
    obtain rfl : others = 0 := by omega
    rw [tried_zero, htaken] at hfree
    cases hfree

/-! ## The loop ends -/

/-- A word found among those of one length is issued by the loop. -/
theorem issues_of_firstFree_eq_some {found used : Nat} (hcount : collisions + found = maxCollisions)
    (h : firstFree letters s.isFree s.length found s.used = (some name, used)) :
    ∃ tries ≤ found, s.Issues letters collisions tries name ({ s with used }.record name) := by
  induction found generalizing collisions s with
  | zero => cases h
  | succ found ih =>
    rw [firstFree] at h
    split at h
    · next hfree =>
      cases h
      exact ⟨1, by omega, .free hfree⟩
    · next htaken =>
      cases found with
      | zero => cases h
      | succ found =>
        have hnext : collisions + 1 + (found + 1) = maxCollisions := by omega
        obtain ⟨tries, hle, hissues⟩ := ih (s := s.skip) hnext h
        exact ⟨tries + 1, by omega, .taken (Bool.eq_false_iff.mpr htaken) (by omega) hissues⟩

/-- Where all words of one length are taken, the loop goes on with longer ones. -/
theorem issues_of_firstFree_eq_none {failed used : Nat}
    (hcount : collisions + (failed + 1) = maxCollisions)
    (h : firstFree letters s.isFree s.length (failed + 1) s.used = (none, used))
    (hrest : ({ s with used }.widened).Issues letters 0 tries name s') :
    s.Issues letters collisions (tries + (failed + 1)) name s' := by
  induction failed generalizing collisions s with
  | zero =>
    rw [firstFree] at h
    split at h
    · cases h
    · next htaken =>
      cases h
      exact .crowded (Bool.eq_false_iff.mpr htaken) hcount hrest
  | succ failed ih =>
    rw [firstFree] at h
    split at h
    · cases h
    · next htaken =>
      exact .taken (Bool.eq_false_iff.mpr htaken) (by omega)
        (ih (s := s.skip) (by omega) h hrest)

/-- The loop ends with the word that is drawn, if all words of the greatest length are free. -/
theorem issues_draw {wider : Nat}
    (hlong : ∀ name : String, name.length = s.length + wider → s.isFree name = true) :
    ∃ tries ≤ wider * maxCollisions + 1,
      s.Issues letters 0 tries (draw letters s.isFree wider s.length s.used).1
        { length := (draw letters s.isFree wider s.length s.used).2.1
          issued := (draw letters s.isFree wider s.length s.used).1 :: s.issued
          used := (draw letters s.isFree wider s.length s.used).2.2 } := by
  induction wider generalizing s with
  | zero =>
    exact ⟨1, by omega, .free (hlong _ (length_word _ _ _))⟩
  | succ wider ih =>
    rw [draw]
    split
    · next hfound =>
      obtain ⟨tries, hle, hissues⟩ := issues_of_firstFree_eq_some (Nat.zero_add _) hfound
      exact ⟨tries, by rw [Nat.succ_mul]; omega, hissues⟩
    · next used hfailed =>
      have hlength : ({ s with used }.widened).length + wider = s.length + (wider + 1) :=
        Nat.add_right_comm _ _ _
      obtain ⟨tries, hle, hissues⟩ := ih (s := { s with used }.widened) fun name hname =>
        hlong name (hname.trans hlength)
      refine ⟨tries + maxCollisions, by rw [Nat.succ_mul]; omega, ?_⟩
      exact issues_of_firstFree_eq_none (Nat.zero_add _) hfailed hissues

theorem issues_next (letters : Letters) (s : Source) :
    ∃ tries ≤ (s.longestTaken + 1 - s.length) * maxCollisions + 1,
      s.Issues letters 0 tries (s.next letters).1 (s.next letters).2 :=
  issues_draw fun _ hname => s.isFree_of_longestTaken_lt (by omega)

end Source

/-! ## A run of aliases -/

theorem exists_issues_random (letters : Letters) (length k : Nat) :
    ∃ tries, (Source.after letters length k).Issues letters 0 tries (random letters length k)
      (Source.after letters length (k + 1)) := by
  obtain ⟨tries, -, hissues⟩ := (Source.after letters length k).issues_next letters
  exact ⟨tries, hissues⟩

theorem length_after_mono (letters : Letters) (length : Nat) :
    Monotone fun k => (Source.after letters length k).length := by
  refine monotone_nat_of_le_succ fun k => ?_
  obtain ⟨tries, hissues⟩ := exists_issues_random letters length k
  exact hissues.spec.2.2.2

theorem length_random (letters : Letters) (length k : Nat) :
    (random letters length k).length = (Source.after letters length (k + 1)).length := by
  obtain ⟨tries, hissues⟩ := exists_issues_random letters length k
  exact hissues.spec.2.2.1

theorem le_length_after (letters : Letters) (length k : Nat) :
    max length 1 ≤ (Source.after letters length k).length :=
  length_after_mono letters length (Nat.zero_le k)

/-- No alias is longer than the words that its source tries. -/
theorem length_le_of_mem_issued {length k : Nat}
    (h : name ∈ (Source.after letters length k).issued) :
    name.length ≤ (Source.after letters length k).length := by
  induction k with
  | zero => cases h
  | succ k ih =>
    obtain ⟨tries, hissues⟩ := exists_issues_random letters length k
    obtain ⟨-, hissued, hlength, hle⟩ := hissues.spec
    rw [hissued] at h
    rcases List.mem_cons.mp h with rfl | h
    · exact Nat.le_of_eq hlength
    · exact Nat.le_trans (ih h) hle

theorem foldl_max_le {words : List String} {bound : Nat} (h : ∀ w ∈ words, w.length ≤ bound)
    {start : Nat} (hstart : start ≤ bound) :
    words.foldl (fun longest w => max longest w.length) start ≤ bound := by
  induction words generalizing start with
  | nil => exact hstart
  | cons w rest ih =>
    exact ih (fun v hv => h v (List.mem_cons_of_mem _ hv))
      (Nat.max_le.mpr ⟨hstart, h w List.mem_cons_self⟩)

theorem length_le_of_mem_reserved {w : String} (h : w ∈ reserved) : w.length ≤ 6 := by
  revert w
  decide

theorem longestTaken_after_le (letters : Letters) (length k : Nat) :
    (Source.after letters length k).longestTaken ≤
      max 6 (Source.after letters length k).length := by
  refine foldl_max_le (fun w hw => ?_) (Nat.zero_le _)
  rcases List.mem_append.mp hw with hw | hw
  · exact Nat.le_trans (length_le_of_mem_reserved hw) (Nat.le_max_left _ _)
  · exact Nat.le_trans (length_le_of_mem_issued hw) (Nat.le_max_right _ _)

/-- The loop ends for every alias: words of seven letters are free unless they are issued, and those
that are longer than the last alias are not. -/
theorem issues_random (letters : Letters) (length k : Nat) :
    ∃ tries ≤ 6 * maxCollisions + 1, (Source.after letters length k).Issues letters 0 tries
      (random letters length k) (Source.after letters length (k + 1)) := by
  obtain ⟨tries, hle, hissues⟩ := (Source.after letters length k).issues_next letters
  refine ⟨tries, Nat.le_trans hle (Nat.succ_le_succ (Nat.mul_le_mul_right _ ?_)), hissues⟩
  have htaken := longestTaken_after_le letters length k
  have hlength := le_length_after letters length k
  omega

theorem letter_bounds (i : Fin 26) : 'a' ≤ letter i ∧ letter i ≤ 'z' := by
  revert i
  decide

theorem bounds_of_mem_random {length k : Nat} {c : Char}
    (h : c ∈ (random letters length k).toList) : 'a' ≤ c ∧ c ≤ 'z' := by
  obtain ⟨i, rfl⟩ := exists_letter_of_mem_random h
  exact letter_bounds (letters i)

theorem random_notMem_reserved (letters : Letters) (length k : Nat) :
    random letters length k ∉ reserved := by
  obtain ⟨tries, hissues⟩ := exists_issues_random letters length k
  have hfree := hissues.spec.1
  simp only [Source.isFree, Bool.and_eq_true, Bool.not_eq_true'] at hfree
  simpa using hfree.1

/-- Aliases of either style never repeat.  Whatever the letters, the loop comes to each random alias
after a bounded number of words; random aliases are made of the letters `a` to `z`, spell no
reserved word, and never get shorter.  The first words that are tried have the length asked for, or
one letter; an alias is longer than the words before it only where as many words in a row as that are
taken. -/
theorem names_issued (length : Nat) (letters : Letters) :
    (∀ style, Function.Injective (names style length letters)) ∧
      (Source.after letters length 0).length = max length 1 ∧
      (Monotone fun k => (names .random length letters k).length) ∧
      ∀ k, (∃ tries ≤ 6 * maxCollisions + 1,
          (Source.after letters length k).Issues letters 0 tries (names .random length letters k)
            (Source.after letters length (k + 1))) ∧
        (∀ c ∈ (names .random length letters k).toList, 'a' ≤ c ∧ c ≤ 'z') ∧
        names .random length letters k ∉ reserved ∧
        (Source.after letters length k).length ≤ (names .random length letters k).length ∧
        ∀ others < maxCollisions,
          (Source.after letters length k).isFree
            ((Source.after letters length k).tried letters others) = true →
          (names .random length letters k).length = (Source.after letters length k).length := by
  refine ⟨fun style => names_injective style length letters, rfl, fun j k hjk => ?_, fun k => ?_⟩
  · calc (random letters length j).length
        = (Source.after letters length (j + 1)).length := length_random letters length j
      _ ≤ (Source.after letters length (k + 1)).length :=
          length_after_mono letters length (Nat.succ_le_succ hjk)
      _ = (random letters length k).length := (length_random letters length k).symm
  · obtain ⟨tries, hle, hissues⟩ := issues_random letters length k
    obtain ⟨-, -, hlength, hgrows⟩ := hissues.spec
    refine ⟨⟨tries, hle, hissues⟩, fun c hc => bounds_of_mem_random hc,
      random_notMem_reserved letters length k, ?_, fun others hothers hfree => ?_⟩
    · exact hlength ▸ hgrows
    · exact hlength.trans (hissues.length_eq (by omega) hfree)

-- letters that spell a reserved word over and over
example : names .random 2 (fun i => if i % 2 = 0 then 0 else 18) 0 = "asa" := by
  decide +kernel

end Alias

end JsonSql
