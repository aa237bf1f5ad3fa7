import JsonSql.Proofs.Paths
import Mathlib.Data.List.Dedup

set_option autoImplicit false

/-!
# Joins by path

The joins of a statement are kept under the text of their path.  Against a record of every insert
there was, a join is found by the latest insert with the path, and there are as many joins as paths
(`answers_of_paths`): segments have no dots, so two paths share a text only if both are blank, the
path without segments and that of one empty segment.  One call keeps this (`Recalls.insert`), and so
do all calls one after another (`answers_eq_recalled`).
-/

namespace JsonSql

namespace Hops

/-! ## Calls -/

/-- What can be asked of the joins of a statement. -/
inductive Call where
  | insert (path : List String) (hop : Hop)
  | get (path : List String)
  | size
  deriving DecidableEq, Repr

/-- What is answered. -/
inductive Answer where
  | done
  | found (hop : Option Hop)
  | count (n : Nat)
  deriving DecidableEq, Repr

/-- The path of a call. -/
def Call.path? : Call → Option (List String)
  | insert path _ | get path => some path
  | size => none

/-- A call with its path spelled in another way. -/
def Call.spelled (spell : List String → List String) : Call → Call
  | insert path hop => .insert (spell path) hop
  | get path => .get (spell path)
  | size => .size

/-- The paths of calls. -/
def pathsOf (calls : List Call) : List (List String) := calls.filterMap Call.path?

/-- The answers to calls, one after another. -/
def answers : Hops → List Call → List Answer
  | _, [] => []
  | hops, .insert path hop :: rest => .done :: (hops.insert path hop).answers rest
  | hops, .get path :: rest => .found (hops.get? path) :: hops.answers rest
  | hops, .size :: rest => .count hops.size :: hops.answers rest

/-! ## A record of every insert -/

/-- What was inserted under which path, the latest first. -/
abbrev History := List (List String × Hop)

/-- The hop of the latest insert with a path. -/
def History.latest? (history : History) (path : List String) : Option Hop :=
  (history.find? fun entry => entry.1 = path).map Prod.snd

/-- The number of paths with an insert. -/
def History.pathCount (history : History) : Nat := (history.map Prod.fst).dedup.length

/-- The answers by the record of every insert. -/
def recalled : History → List Call → List Answer
  | _, [] => []
  | history, .insert path hop :: rest => .done :: recalled ((path, hop) :: history) rest
  | history, .get path :: rest => .found (history.latest? path) :: recalled history rest
  | history, .size :: rest => .count history.pathCount :: recalled history rest

section History

variable {history : History} {path other : List String}

theorem latest?_cons_self (path : List String) (hop : Hop) (history : History) :
    History.latest? ((path, hop) :: history) path = some hop := by
  simp [History.latest?]

theorem latest?_cons_of_ne (h : path ≠ other) (hop : Hop) :
    History.latest? ((path, hop) :: history) other = history.latest? other := by
  simp [History.latest?, h]

theorem latest?_isSome_iff : (history.latest? path).isSome ↔ path ∈ history.map Prod.fst := by
  simp [History.latest?]

theorem pathCount_cons (path : List String) (hop : Hop) (history : History) :
    History.pathCount ((path, hop) :: history) =
      if (history.latest? path).isSome then history.pathCount else history.pathCount + 1 := by
  rw [History.pathCount, List.map_cons]
  split
  · next hsome => rw [List.dedup_cons_of_mem (latest?_isSome_iff.mp hsome), History.pathCount]
  · next hnone =>
    rw [List.dedup_cons_of_notMem (mt latest?_isSome_iff.mpr hnone), List.length_cons,
      History.pathCount]

end History

/-! ## The joins keep to the record -/

theorem length_putMember {α : Type} (key : String) (value : α) (members : List (String × α)) :
    (putMember key value members).length =
      if (member? key members).isSome then members.length else members.length + 1 := by
  induction members with
  | nil => rfl
  | cons m rest ih =>
    obtain ⟨k, v⟩ := m
    rw [putMember, member?]
    by_cases hkey : k = key
    · simp [hkey]
    · rw [if_neg hkey, if_neg hkey, List.length_cons, ih, List.length_cons]
      split <;> rfl

/-- A path that is joined already is not counted again. -/
theorem size_insert (hops : Hops) (path : List String) (hop : Hop) :
    (hops.insert path hop).size =
      if (hops.get? path).isSome then hops.size else hops.size + 1 :=
  length_putMember _ _ _

/-- For paths of a kind, joins keep to a record with these paths spelled in another way. -/
structure Recalls (spell : List String → List String) (kind : List String → Prop)
    (history : History) (hops : Hops) : Prop where
  get? : ∀ path, kind path → hops.get? path = history.latest? (spell path)
  size : hops.size = history.pathCount

variable {spell : List String → List String} {kind : List String → Prop} {history : History}
  {hops : Hops}

theorem recalls_nil (spell : List String → List String) (kind : List String → Prop) :
    Recalls spell kind [] {} :=
  ⟨fun _ _ => rfl, rfl⟩

/-- An insert is kept under its path, if paths share a text only where they share a spelling. -/
theorem Recalls.insert (h : Recalls spell kind history hops)
    (hspell : ∀ path other, kind path → kind other →
      (key path = key other ↔ spell path = spell other))
    {path : List String} (hpath : kind path) (hop : Hop) :
    Recalls spell kind ((spell path, hop) :: history) (hops.insert path hop) := by
  constructor
  · intro other hother
    by_cases hsame : spell path = spell other
    · have hkey : key other = key path := ((hspell path other hpath hother).mpr hsame).symm
      rw [Hops.get?, hkey, ← Hops.get?, get?_insert_self, ← hsame, latest?_cons_self]
    · have hkey : key other ≠ key path := fun hkey =>
        hsame ((hspell path other hpath hother).mp hkey.symm)
      rw [get?_insert_of_ne _ hkey, latest?_cons_of_ne hsame, h.get? other hother]
  · rw [size_insert, pathCount_cons, h.get? path hpath, h.size]

/-- All answers are those by the record. -/
theorem answers_eq_recalled (h : Recalls spell kind history hops)
    (hspell : ∀ path other, kind path → kind other →
      (key path = key other ↔ spell path = spell other))
    {calls : List Call} (hcalls : ∀ path ∈ pathsOf calls, kind path) :
    hops.answers calls = recalled history (calls.map (Call.spelled spell)) := by
  induction calls generalizing history hops with
  | nil => rfl
  | cons call rest ih =>
    have hrest : ∀ path ∈ pathsOf rest, kind path := fun path hmem =>
      hcalls path (((List.sublist_cons_self call rest).filterMap Call.path?).subset hmem)
    cases call with
    | insert path hop =>
      have hpath : kind path := hcalls path (by simp [pathsOf, Call.path?])
      rw [answers, List.map_cons, Call.spelled, recalled, ih (h.insert hspell hpath hop) hrest]
    | get path =>
      have hpath : kind path := hcalls path (by simp [pathsOf, Call.path?])
      rw [answers, List.map_cons, Call.spelled, recalled, ih h hrest, h.get? path hpath]
    | size => rw [answers, List.map_cons, Call.spelled, recalled, ih h hrest, h.size]

/-! ## Paths that share a text -/

/-- The path without segments spelled as that of one empty segment, which has the same text. -/
def nameBlank (path : List String) : List String := if path = [] then [""] else path

theorem key_nameBlank (path : List String) : key (nameBlank path) = key path := by
  rw [nameBlank]
  split
  · next hnil =>
    subst hnil
    rfl
  · rfl

/-- Paths share a text only if they are the same or both blank. -/
theorem key_eq_key_iff {path other : List String} (hpath : IsPath path) (hother : IsPath other) :
    key path = key other ↔ nameBlank path = nameBlank other := by
  have hspelled : ∀ {path : List String}, IsPath path →
      IsPath (nameBlank path) ∧ nameBlank path ≠ [] := by
    intro path hpath
    rw [nameBlank]
    split
    · exact ⟨fun s hs => List.mem_singleton.mp hs ▸ List.not_mem_nil, List.cons_ne_nil _ _⟩
    · next hne => exact ⟨hpath, hne⟩
  constructor
  · intro hkey
    rw [← key_nameBlank path, ← key_nameBlank other] at hkey
    exact key_injective (hspelled hpath).1 (hspelled hother).1 (hspelled hpath).2
      (hspelled hother).2 hkey
  · intro hsame
    rw [← key_nameBlank path, hsame, key_nameBlank]

theorem nameBlank_injOn {path other : List String} (h : nameBlank path = nameBlank other)
    (hblank : path = [] → other ≠ [""]) (hblank' : other = [] → path ≠ [""]) : path = other := by
  simp only [nameBlank] at h
  split at h <;> split at h
  · next hnil hnil' => rw [hnil, hnil']
  · next hnil _ => exact absurd h.symm (hblank hnil)
  · next _ hnil => exact absurd h (hblank' hnil)
  · exact h

theorem map_spelled_id (calls : List Call) : calls.map (Call.spelled id) = calls := by
  refine (List.map_congr_left fun call _ => ?_).trans (List.map_id calls)
  cases call <;> rfl

/-- The joins of a statement are a map by path.  For calls on paths of segments, every answer is
that by the record of all inserts, with the two blank paths taken for one; so if only one of them is
among the paths of the calls, the paths count as they are. -/
theorem answers_of_paths {calls : List Call} (hpaths : ∀ path ∈ pathsOf calls, IsPath path) :
    answers {} calls = recalled [] (calls.map (.spelled nameBlank)) ∧
      ([] ∉ pathsOf calls ∨ [""] ∉ pathsOf calls → answers {} calls = recalled [] calls) := by
  refine ⟨answers_eq_recalled (recalls_nil nameBlank IsPath)
    (fun path other hpath hother => key_eq_key_iff hpath hother) hpaths, fun hblank => ?_⟩
  have happart {path other : List String} (hpath : path ∈ pathsOf calls)
      (hother : other ∈ pathsOf calls) : path = [] → other ≠ [""] := by
    rintro rfl rfl
    rcases hblank with hnil | hempty
    · exact hnil hpath
    · exact hempty hother
  have hanswers := answers_eq_recalled (recalls_nil id fun path => path ∈ pathsOf calls)
    (fun path other hpath hother => ⟨fun hkey => nameBlank_injOn
      ((key_eq_key_iff (hpaths path hpath) (hpaths other hother)).mp hkey)
      (happart hpath hother) (happart hother hpath), congrArg key⟩)
    (fun path hpath => hpath)
  rwa [map_spelled_id] at hanswers

/-- Two paths with a common beginning, one of them joined again, and a path of an empty segment. -/
def Call.blog : List Call :=
  [.insert ["item:headings"] ⟨"j1", "headings"⟩, .insert ["item:headings", "author"] ⟨"j2", "authors"⟩,
    .insert ["", "author"] ⟨"j3", "authors"⟩, .insert ["item:headings"] ⟨"j4", "headings"⟩,
    .get ["item:headings"], .get ["author"], .get [], .size]

theorem answers_of_paths_blog :
    (∀ path ∈ pathsOf Call.blog, IsPath path) ∧ [""] ∉ pathsOf Call.blog ∧
      answers {} Call.blog = recalled [] Call.blog ∧
      recalled [] Call.blog = [.done, .done, .done, .done, .found (some ⟨"j4", "headings"⟩),
        .found none, .found none, .count 3] := by
  have hpaths : ∀ path ∈ pathsOf Call.blog, IsPath path := by
    unfold IsPath IsSegment
    decide +kernel
  have hblank : [""] ∉ pathsOf Call.blog := by decide +kernel
  exact ⟨hpaths, hblank, (answers_of_paths hpaths).2 (.inr hblank), by decide +kernel⟩

/-- The two blank paths are not told apart: a join under the path of one empty segment is found by
the path without segments, and put in the place of one there. -/
theorem answers_ne_recalled_blank :
    ∃ calls, (∀ path ∈ pathsOf calls, IsPath path) ∧ answers {} calls ≠ recalled [] calls := by
  refine ⟨[.insert [""] ⟨"j1", "authors"⟩, .get [], .insert [] ⟨"j2", "authors"⟩, .size], ?_,
    by decide +kernel⟩
  unfold IsPath IsSegment
  decide +kernel

end Hops

end JsonSql
