import JsonSql.Proofs.Legible
import JsonSql.Settings.Variables
import Mathlib.Data.List.Forall2
import Mathlib.Data.List.TakeWhile

set_option autoImplicit false

/-!
# Expansion is one substitution

A text falls into characters and references in one way (`splits_iff`), and the pass over it writes
its pieces one after another with the values of variables in the place of references
(`run_of_splits`): so no value is read again, and where a pass fails, it is for the first reference
to a variable that is not set.  Of a value of settings expansion changes the strings, each by itself,
and nothing else (`expandValue_eq`).
-/

namespace JsonSql.Settings

variable {environment : String → Option String}

/-! ## The pieces of a text -/

/-- A text falls into pieces: characters other than a dollar sign, references with the name in
braces, up to the closing one or else to the end, references with a name that is as long as it can
be, and dollar signs that start neither. -/
inductive Splits : List Char → List Piece → Prop
  | nil : Splits [] []
  | char {c : Char} {rest : List Char} {ps : List Piece} :
      c ≠ '$' → Splits rest ps → Splits (c :: rest) (.char c :: ps)
  | braced {name rest : List Char} {ps : List Piece} :
      '\x7d' ∉ name → Splits rest ps →
      Splits ('$' :: '\x7b' :: (name ++ '\x7d' :: rest)) (.reference (.ofList name) :: ps)
  | unclosed {name : List Char} :
      '\x7d' ∉ name → Splits ('$' :: '\x7b' :: name) [.reference (.ofList name)]
  | bare {name rest : List Char} {ps : List Piece} :
      name ≠ [] → (∀ c ∈ name, isNameChar c = true) → (∀ c ∈ rest.head?, isNameChar c = false) →
      Splits rest ps → Splits ('$' :: (name ++ rest)) (.reference (.ofList name) :: ps)
  | lone {rest : List Char} {ps : List Piece} :
      (∀ c ∈ rest.head?, c ≠ '\x7b' ∧ isNameChar c = false) → Splits rest ps →
      Splits ('$' :: rest) (.char '$' :: ps)

theorem pieces_of_ne {c : Char} (hc : c ≠ '$') (rest : List Char) :
    pieces (c :: rest) = .char c :: pieces rest := by
  rw [pieces.eq_def]
  dsimp only
  rw [if_neg hc]

theorem pieces_brace (rest : List Char) :
    pieces ('$' :: '\x7b' :: rest) =
      .reference (.ofList (rest.takeWhile (· ≠ '\x7d'))) ::
        pieces (rest.drop ((rest.takeWhile (· ≠ '\x7d')).length + 1)) := by
  rw [pieces, if_pos rfl]

theorem pieces_dollar {rest : List Char} (h : rest.head? ≠ some '\x7b') :
    pieces ('$' :: rest) =
      if rest.takeWhile isNameChar = [] then .char '$' :: pieces rest
      else .reference (.ofList (rest.takeWhile isNameChar)) ::
        pieces (rest.drop (rest.takeWhile isNameChar).length) := by
  rw [pieces, if_pos rfl]
  rintro more rfl
  exact h rfl

theorem ne_brace_of_isNameChar {c : Char} (h : isNameChar c = true) : c ≠ '\x7b' := by
  rintro rfl
  revert h
  decide +kernel

theorem Splits.eq_pieces {cs : List Char} {ps : List Piece} (h : Splits cs ps) :
    ps = pieces cs := by
  induction h with
  | nil => rw [pieces]
  | char hc _ ih => rw [pieces_of_ne hc, ih]
  | @braced name rest ps hname _ ih =>
    have htake : (name ++ '\x7d' :: rest).takeWhile (· ≠ '\x7d') = name :=
      (Sql.takeWhile_append_stop (fun c hc => by simpa using ne_of_mem_of_not_mem hc hname)
        (by simp)).1
    rw [pieces_brace, htake, ih]
    simp
  | @unclosed name hname =>
    have htake : name.takeWhile (· ≠ '\x7d') = name :=
      List.takeWhile_eq_self_iff.mpr fun c hc => by simpa using ne_of_mem_of_not_mem hc hname
    rw [pieces_brace, htake, List.drop_of_length_le (Nat.le_succ _), pieces]
  | @bare name rest ps hne hname hrest _ ih =>
    have htake := (Sql.takeWhile_append_stop hname hrest).1
    have hhead : (name ++ rest).head? ≠ some '\x7b' := by
      cases name with
      | nil => exact absurd rfl hne
      | cons c name =>
        exact fun hbrace =>
          ne_brace_of_isNameChar (hname c List.mem_cons_self) (Option.some.inj hbrace)
    rw [pieces_dollar hhead, htake, if_neg hne, List.drop_left, ih]
  | @lone rest ps hrest _ ih =>
    have hhead : rest.head? ≠ some '\x7b' := fun hbrace => (hrest _ hbrace).1 rfl
    have htake : rest.takeWhile isNameChar = [] :=
      (Sql.takeWhile_append_stop (List.forall_mem_nil _) fun c hc => (hrest c hc).2).1
    rw [pieces_dollar hhead, if_pos htake, ih]

/-- What follows the stretch at the start of a text does not go on with it. -/
theorem head?_dropWhile_false {p : Char → Bool} {cs : List Char} :
    ∀ c ∈ (cs.dropWhile p).head?, p c = false := by
  intro c hc
  have hhead := List.head?_dropWhile_not p cs
  rwa [hc] at hhead

theorem splits_pieces (cs : List Char) : Splits cs (pieces cs) := by
  fun_induction pieces cs with
  | case1 => exact .nil
  | case2 rest name ih =>
    have hname : '\x7d' ∉ name := fun hmem => by simpa using List.mem_takeWhile_imp hmem
    have hsplit : rest = name ++ rest.dropWhile (· ≠ '\x7d') := List.takeWhile_append_dropWhile.symm
    cases hafter : rest.dropWhile (· ≠ '\x7d') with
    | nil =>
      rw [hafter, List.append_nil] at hsplit
      rw [← hsplit, List.drop_of_length_le (Nat.le_succ _), pieces, hsplit]
      exact .unclosed hname
    | cons c after =>
      have hc : c = '\x7d' := by
        have hmem : c ∈ (rest.dropWhile (· ≠ '\x7d')).head? := by rw [hafter]; rfl
        simpa using head?_dropWhile_false c hmem
      rw [hafter, hc] at hsplit
      have hdrop : rest.drop (name.length + 1) = after := by
        rw [hsplit]
        simp
      rw [hdrop] at ih ⊢
      rw [hsplit]
      exact .braced hname ih
  | case3 rest hbrace name hname ih =>
    refine .lone (fun c hc => ⟨?_, ?_⟩) ih
    · rintro rfl
      obtain ⟨more, rfl⟩ := List.head?_eq_some_iff.mp hc
      exact hbrace more rfl
    · have hafter : rest.dropWhile isNameChar = rest := by
        have hsplit : name ++ rest.dropWhile isNameChar = rest := List.takeWhile_append_dropWhile
        rwa [hname] at hsplit
      rw [← hafter] at hc
      exact head?_dropWhile_false c hc
  | case4 rest hbrace name hname ih =>
    have hsplit : rest = name ++ rest.dropWhile isNameChar := List.takeWhile_append_dropWhile.symm
    have hdrop : rest.drop name.length = rest.dropWhile isNameChar := by
      conv_lhs => rw [hsplit, List.drop_left]
    rw [hdrop] at ih ⊢
    conv_lhs => rw [hsplit]
    exact .bare hname (fun c hc => List.mem_takeWhile_imp hc) head?_dropWhile_false ih
  | case5 c rest hc ih => exact .char hc ih

/-- There is one way. -/
theorem splits_iff {cs : List Char} {ps : List Piece} : Splits cs ps ↔ ps = pieces cs := by
  constructor
  · exact Splits.eq_pieces
  · rintro rfl
    exact splits_pieces cs

/-! ## The pass writes the pieces -/

section Settle

variable {α β γ : Type}

/-- A result, or what went wrong first. -/
def settle (fault : Option MissingVariable) (result : α) : Except MissingVariable α :=
  match fault with
  | some e => .error e
  | none => .ok result

variable {fault fault' : Option MissingVariable}

theorem settle_eq_ok_iff {a b : α} : settle fault a = .ok b ↔ fault = none ∧ b = a := by
  cases fault <;> simp [settle, eq_comm]

theorem settle_eq_error_iff {a : α} {e : MissingVariable} :
    settle fault a = .error e ↔ fault = some e := by
  cases fault <;> simp [settle]

theorem map_settle (f : α → β) (a : α) : f <$> settle fault a = settle fault (f a) := by
  cases fault <;> rfl

/-- Of two steps the fault of the first one counts. -/
theorem settle_seq (f : α → β → γ) (a : α) (b : β) :
    (do return f (← settle fault a) (← settle fault' b)) = settle (fault.or fault') (f a b) := by
  cases fault <;> cases fault' <;> rfl

/-- Nothing comes after what was found. -/
theorem append_nothing (found : Except MissingVariable (List α)) :
    (do return (← found) ++ (← Except.ok [])) = found := by
  cases found with
  | error e => rfl
  | ok cs => exact congrArg Except.ok (List.append_nil cs)

end Settle

/-- What stands for a piece in the expanded text. -/
def Piece.text (environment : String → Option String) : Piece → List Char
  | char c => [c]
  | reference name => ((environment name).getD "").toList

/-- What is wrong with a piece. -/
def Piece.fault? (environment : String → Option String) : Piece → Option MissingVariable
  | char _ => none
  | reference name => if environment name = none then some ⟨name⟩ else none

/-- Pieces written one after another. -/
def written (environment : String → Option String) (ps : List Piece) :
    Except MissingVariable (List Char) :=
  settle (ps.findSome? (Piece.fault? environment)) (ps.flatMap (Piece.text environment))

theorem valueOf_eq (name : List Char) :
    valueOf environment name =
      settle ((Piece.reference (.ofList name)).fault? environment)
        ((Piece.reference (.ofList name)).text environment) := by
  rw [valueOf, Piece.fault?, Piece.text]
  cases environment (.ofList name) <;> rfl

theorem written_char (c : Char) (ps : List Piece) :
    written environment (.char c :: ps) = (c :: ·) <$> written environment ps := by
  rw [written, written, map_settle]
  rfl

theorem written_reference (name : List Char) (ps : List Piece) :
    written environment (.reference (.ofList name) :: ps) =
      do return (← valueOf environment name) ++ (← written environment ps) := by
  rw [valueOf_eq, written, written, settle_seq, List.findSome?_cons, List.flatMap_cons]
  cases (Piece.reference (.ofList name)).fault? environment <;> rfl

namespace Reading

variable {reading reading' : Reading} {c : Char} {got out name rest : List Char}

theorem run_cons (h : reading.next environment c = .ok (out, reading')) (rest : List Char) :
    reading.run environment (c :: rest) = (out ++ ·) <$> reading'.run environment rest := by
  rw [run, h]
  rfl

/-- A character for which nothing is written. -/
theorem run_silent (h : reading.next environment c = .ok ([], reading')) (rest : List Char) :
    reading.run environment (c :: rest) = reading'.run environment rest := by
  rw [run_cons h]
  exact id_map _

theorem run_plain (c : Char) (rest : List Char) :
    plain.run environment (c :: rest) =
      ((outside c).1 ++ ·) <$> (outside c).2.run environment rest :=
  run_cons rfl rest

theorem run_char (hc : c ≠ '$') (rest : List Char) :
    plain.run environment (c :: rest) = (c :: ·) <$> plain.run environment rest := by
  rw [run_plain, outside, if_neg hc]
  rfl

theorem run_dollar (rest : List Char) :
    plain.run environment ('$' :: rest) = dollar.run environment rest :=
  run_silent rfl rest

/-- A name in braces is read up to the closing one. -/
theorem run_braced (hname : '\x7d' ∉ name) :
    (braced got).run environment (name ++ '\x7d' :: rest) =
      do return (← valueOf environment (got ++ name)) ++ (← plain.run environment rest) := by
  induction name generalizing got with
  | nil =>
    rw [List.nil_append, List.append_nil, run, next, if_pos rfl]
    cases valueOf environment got <;> rfl
  | cons c name ih =>
    obtain ⟨hc, hname⟩ := not_or.mp (mt List.mem_cons.mpr hname)
    rw [List.cons_append, run_silent (by rw [next, if_neg (Ne.symm hc)]), ih hname,
      List.append_assoc, List.singleton_append]

/-- A name in braces that are not closed is read to the end. -/
theorem run_unclosed (hname : '\x7d' ∉ name) :
    (braced got).run environment name = valueOf environment (got ++ name) := by
  induction name generalizing got with
  | nil => rw [run, finish, List.append_nil]
  | cons c name ih =>
    obtain ⟨hc, hname⟩ := not_or.mp (mt List.mem_cons.mpr hname)
    rw [run_silent (by rw [next, if_neg (Ne.symm hc)]), ih hname, List.append_assoc,
      List.singleton_append]

/-- The character that ends a name without braces is read like any other. -/
theorem run_bare (hname : ∀ c ∈ name, isNameChar c = true)
    (hrest : ∀ c ∈ rest.head?, isNameChar c = false) :
    (bare got).run environment (name ++ rest) =
      do return (← valueOf environment (got ++ name)) ++ (← plain.run environment rest) := by
  induction name generalizing got with
  | nil =>
    rw [List.nil_append, List.append_nil]
    cases rest with
    | nil =>
      rw [run, run, finish, finish, append_nothing]
    | cons c rest =>
      have hc : isNameChar c = false := hrest c rfl
      rw [run, next, if_neg (by simp [hc]), run_plain]
      cases valueOf environment got with
      | error e => rfl
      | ok value =>
        change ((value ++ (outside c).1) ++ ·) <$> (outside c).2.run environment rest =
          (value ++ ·) <$> ((outside c).1 ++ ·) <$> (outside c).2.run environment rest
        simp only [Functor.map_map, List.append_assoc]
  | cons c name ih =>
    obtain ⟨hc, hname⟩ := List.forall_mem_cons.mp hname
    rw [List.cons_append, run_silent (by rw [next, if_pos hc]), ih hname, List.append_assoc,
      List.singleton_append]

/-- A dollar sign before neither a brace nor a name is written, and what follows it is read like
any other text. -/
theorem run_lone (hrest : ∀ c ∈ rest.head?, c ≠ '\x7b' ∧ isNameChar c = false) :
    dollar.run environment rest = ('$' :: ·) <$> plain.run environment rest := by
  cases rest with
  | nil => rfl
  | cons c rest =>
    obtain ⟨hbrace, hc⟩ := hrest c rfl
    rw [run_cons (by rw [next, if_neg hbrace, if_neg (by simp [hc])]),
      run_plain, Functor.map_map]
    rfl

end Reading

/-- A pass over a text writes its pieces. -/
theorem run_of_splits {cs : List Char} {ps : List Piece} (h : Splits cs ps) :
    Reading.plain.run environment cs = written environment ps := by
  induction h with
  | nil => rfl
  | char hc _ ih => rw [Reading.run_char hc, ih, written_char]
  | braced hname _ ih =>
    rw [Reading.run_dollar, Reading.run_silent rfl, Reading.run_braced hname, ih,
      written_reference, List.nil_append]
  | @unclosed name hname =>
    rw [Reading.run_dollar, Reading.run_silent rfl, Reading.run_unclosed hname,
      written_reference, List.nil_append]
    exact (append_nothing _).symm
  | @bare name rest ps hne hname hrest _ ih =>
    cases name with
    | nil => exact absurd rfl hne
    | cons c name =>
      obtain ⟨hc, hname⟩ := List.forall_mem_cons.mp hname
      have hstart : Reading.dollar.next environment c = .ok ([], .bare [c]) := by
        rw [Reading.next, if_neg (ne_brace_of_isNameChar hc), if_pos hc]
      rw [Reading.run_dollar, List.cons_append, Reading.run_silent hstart,
        Reading.run_bare hname hrest, ih, written_reference, List.singleton_append]
  | lone hrest _ ih => rw [Reading.run_dollar, Reading.run_lone hrest, ih, written_char]

/-- What is wrong with a text: its first reference to a variable that is not set. -/
def textFault? (environment : String → Option String) (text : String) : Option MissingVariable :=
  (pieces text.toList).findSome? (Piece.fault? environment)

/-- A text with the values of variables in the place of its references. -/
def substituted (environment : String → Option String) (text : String) : String :=
  .ofList ((pieces text.toList).flatMap (Piece.text environment))

theorem expand_eq (text : String) :
    expand environment text =
      settle (textFault? environment text) (substituted environment text) := by
  rw [expand, run_of_splits (splits_pieces text.toList), written, map_settle]
  rfl

theorem exists_expand_iff {text : String} :
    (∃ out, expand environment text = .ok out) ↔ textFault? environment text = none := by
  simp [expand_eq, settle_eq_ok_iff]

end JsonSql.Settings

/-! ## Strings of a value -/

namespace JsonSql.Toml

variable {f g : String → String}

mutual
/-- The strings in a value, from left to right; keys are none of them. -/
def strings : Toml → List String
  | .string s => [s]
  | .array items => stringsOfItems items
  | .table members => stringsOfMembers members
  | _ => []

/-- The strings in items. -/
def stringsOfItems : List Toml → List String
  | [] => []
  | item :: rest => strings item ++ stringsOfItems rest

/-- The strings in the values of members. -/
def stringsOfMembers : List (String × Toml) → List String
  | [] => []
  | (_, value) :: rest => strings value ++ stringsOfMembers rest
end

mutual
/-- A value with every string in it changed. -/
def mapStrings (f : String → String) : Toml → Toml
  | .string s => .string (f s)
  | .array items => .array (mapItems f items)
  | .table members => .table (mapMembers f members)
  | other => other

/-- Items with every string in them changed. -/
def mapItems (f : String → String) : List Toml → List Toml
  | [] => []
  | item :: rest => mapStrings f item :: mapItems f rest

/-- Members with every string in their values changed, and with their keys. -/
def mapMembers (f : String → String) : List (String × Toml) → List (String × Toml)
  | [] => []
  | (key, value) :: rest => (key, mapStrings f value) :: mapMembers f rest
end

mutual
/-- Only what the strings of a value are changed to counts. -/
theorem mapStrings_congr {v : Toml} (h : ∀ s ∈ v.strings, f s = g s) :
    v.mapStrings f = v.mapStrings g := by
  cases v with
  | string s =>
    rw [mapStrings, mapStrings, h s (by rw [strings]; exact List.mem_singleton_self s)]
  | array items =>
    rw [strings] at h
    rw [mapStrings, mapStrings, mapItems_congr h]
  | table members =>
    rw [strings] at h
    rw [mapStrings, mapStrings, mapMembers_congr h]
  | _ => rfl

theorem mapItems_congr {items : List Toml} (h : ∀ s ∈ stringsOfItems items, f s = g s) :
    mapItems f items = mapItems g items := by
  cases items with
  | nil => rfl
  | cons item rest =>
    rw [stringsOfItems, List.forall_mem_append] at h
    rw [mapItems, mapItems, mapStrings_congr h.1, mapItems_congr h.2]

theorem mapMembers_congr {members : List (String × Toml)}
    (h : ∀ s ∈ stringsOfMembers members, f s = g s) :
    mapMembers f members = mapMembers g members := by
  cases members with
  | nil => rfl
  | cons m rest =>
    obtain ⟨key, value⟩ := m
    rw [stringsOfMembers, List.forall_mem_append] at h
    rw [mapMembers, mapMembers, mapStrings_congr h.1, mapMembers_congr h.2]
end

end JsonSql.Toml

namespace JsonSql.Settings

variable {environment : String → Option String}

open Toml in
mutual
/-- Expansion changes the strings of a value, and the first of them with a fault makes it fail. -/
theorem expandValue_eq (v : Toml) :
    expandValue environment v =
      settle (v.strings.findSome? (textFault? environment))
        (v.mapStrings (substituted environment)) := by
  cases v with
  | string s =>
    rw [expandValue, expand_eq, map_settle, strings, mapStrings, List.findSome?_singleton]
  | array items => rw [expandValue, expandItems_eq items, map_settle, strings, mapStrings]
  | table members => rw [expandValue, expandMembers_eq members, map_settle, strings, mapStrings]
  | _ => rfl

theorem expandItems_eq (items : List Toml) :
    expandItems environment items =
      settle ((stringsOfItems items).findSome? (textFault? environment))
        (mapItems (substituted environment) items) := by
  cases items with
  | nil => rfl
  | cons item rest =>
    rw [expandItems, expandValue_eq item, expandItems_eq rest, settle_seq, stringsOfItems,
      List.findSome?_append, mapItems]

theorem expandMembers_eq (members : List (String × Toml)) :
    expandMembers environment members =
      settle ((stringsOfMembers members).findSome? (textFault? environment))
        (mapMembers (substituted environment) members) := by
  cases members with
  | nil => rfl
  | cons m rest =>
    obtain ⟨key, value⟩ := m
    rw [expandMembers, expandValue_eq value, expandMembers_eq rest,
      settle_seq fun value rest => (key, value) :: rest, stringsOfMembers, List.findSome?_append,
      mapMembers]
end

/-! ## One substitution -/

theorem Piece.fault?_eq_some_iff {p : Piece} {e : MissingVariable} :
    p.fault? environment = some e ↔ p = .reference e.name ∧ environment e.name = none := by
  cases p with
  | char c => simp [Piece.fault?]
  | reference name =>
    obtain ⟨missing⟩ := e
    rw [Piece.fault?]
    split
    · next hunset => simpa using fun h : name = missing => h ▸ hunset
    · next hset => simpa using fun h : name = missing => h ▸ hset

/-- Pieces are without fault if every variable that they refer to is set. -/
theorem faultless_iff {ps : List Piece} :
    (∀ p ∈ ps, p.fault? environment = none) ↔
      ∀ name, Piece.reference name ∈ ps → environment name ≠ none := by
  constructor
  · intro h name hmem hunset
    have hfault := h _ hmem
    rw [Piece.fault?_eq_some_iff (e := ⟨name⟩) |>.mpr ⟨rfl, hunset⟩] at hfault
    cases hfault
  · intro h p hmem
    cases p with
    | char c => rfl
    | reference name => exact if_neg (h name hmem)

theorem expand_eq_ok_iff {text out : String} :
    expand environment text = .ok out ↔
      (∀ name, Piece.reference name ∈ pieces text.toList → environment name ≠ none) ∧
        out.toList = (pieces text.toList).flatMap (Piece.text environment) := by
  rw [expand_eq, settle_eq_ok_iff, textFault?, List.findSome?_eq_none_iff, faultless_iff,
    substituted, ← String.toList_inj, String.toList_ofList]

theorem expand_eq_error_iff {text name : String} :
    expand environment text = .error ⟨name⟩ ↔
      ∃ before after, pieces text.toList = before ++ .reference name :: after ∧
        environment name = none ∧
        ∀ other, Piece.reference other ∈ before → environment other ≠ none := by
  rw [expand_eq, settle_eq_error_iff, textFault?, List.findSome?_eq_some_iff]
  constructor
  · rintro ⟨before, p, after, hpieces, hfault, hbefore⟩
    obtain ⟨rfl, hunset⟩ := Piece.fault?_eq_some_iff.mp hfault
    exact ⟨before, after, hpieces, hunset, faultless_iff.mp hbefore⟩
  · rintro ⟨before, after, hpieces, hunset, hbefore⟩
    exact ⟨before, _, after, hpieces, Piece.fault?_eq_some_iff.mpr ⟨rfl, hunset⟩,
      faultless_iff.mpr hbefore⟩

theorem pieces_of_notMem {cs : List Char} (h : '$' ∉ cs) : pieces cs = cs.map .char := by
  induction cs with
  | nil => rw [pieces, List.map_nil]
  | cons c rest ih =>
    obtain ⟨hc, hrest⟩ := not_or.mp (mt List.mem_cons.mpr h)
    rw [pieces_of_ne (Ne.symm hc), ih hrest, List.map_cons]

/-- A text without a dollar sign is left as it is. -/
theorem expand_of_notMem {text : String} (h : '$' ∉ text.toList) :
    expand environment text = .ok text := by
  have hpieces := pieces_of_notMem h
  refine expand_eq_ok_iff.mpr ⟨?_, ?_⟩
  · simp [hpieces]
  · rw [hpieces, List.flatMap_map]
    exact (List.flatMap_singleton' text.toList).symm

theorem expandValue_eq_ok_iff {v v' : Toml} :
    expandValue environment v = .ok v' ↔
      ∃ f : String → String, (∀ s ∈ v.strings, expand environment s = .ok (f s)) ∧
        v' = v.mapStrings f := by
  rw [expandValue_eq, settle_eq_ok_iff, List.findSome?_eq_none_iff]
  constructor
  · rintro ⟨hfault, rfl⟩
    exact ⟨substituted environment,
      fun s hs => by rw [expand_eq, settle_eq_ok_iff]; exact ⟨hfault s hs, rfl⟩, rfl⟩
  · rintro ⟨f, hf, rfl⟩
    have hsettled : ∀ s ∈ v.strings,
        textFault? environment s = none ∧ f s = substituted environment s := fun s hs =>
      settle_eq_ok_iff.mp ((expand_eq s).symm.trans (hf s hs))
    exact ⟨fun s hs => (hsettled s hs).1, Toml.mapStrings_congr fun s hs => (hsettled s hs).2⟩

theorem expandValue_eq_error_iff {v : Toml} {e : MissingVariable} :
    expandValue environment v = .error e ↔
      ∃ before s after, v.strings = before ++ s :: after ∧ expand environment s = .error e ∧
        ∀ t ∈ before, ∃ out, expand environment t = .ok out := by
  have hfault : ∀ s, expand environment s = .error e ↔ textFault? environment s = some e :=
    fun s => by rw [expand_eq, settle_eq_error_iff]
  rw [expandValue_eq, settle_eq_error_iff, List.findSome?_eq_some_iff]
  simp only [hfault, exists_expand_iff]

/-- Expansion is one substitution, whatever the variables of the environment are.  A text falls into
pieces in one way.  If all variables that it refers to are set, it is expanded to its pieces with
their values in the place of references, none of which is read again; else it fails, and names the
first one that is not set.  A text without a dollar sign is left as it is.  Of a value exactly the
strings are expanded, at any depth, and the first one that fails makes the value fail. -/
theorem expanded_once (environment : String → Option String) :
    (∀ text : String,
      (∀ ps, Splits text.toList ps ↔ ps = pieces text.toList) ∧
      (∀ out, expand environment text = .ok out ↔
        (∀ name, Piece.reference name ∈ pieces text.toList → environment name ≠ none) ∧
          out.toList = (pieces text.toList).flatMap (Piece.text environment)) ∧
      (∀ name, expand environment text = .error ⟨name⟩ ↔
        ∃ before after, pieces text.toList = before ++ .reference name :: after ∧
          environment name = none ∧
          ∀ other, Piece.reference other ∈ before → environment other ≠ none) ∧
      ('$' ∉ text.toList → expand environment text = .ok text)) ∧
    ∀ v : Toml,
      (∀ v', expandValue environment v = .ok v' ↔
        ∃ f : String → String, (∀ s ∈ v.strings, expand environment s = .ok (f s)) ∧
          v' = v.mapStrings f) ∧
      ∀ e, expandValue environment v = .error e ↔
        ∃ before s after, v.strings = before ++ s :: after ∧ expand environment s = .error e ∧
          ∀ t ∈ before, ∃ out, expand environment t = .ok out :=
  ⟨fun _ => ⟨fun _ => splits_iff, fun _ => expand_eq_ok_iff, fun _ => expand_eq_error_iff,
    expand_of_notMem⟩, fun _ => ⟨fun _ => expandValue_eq_ok_iff, fun _ => expandValue_eq_error_iff⟩⟩

example :
    expand (fun name => if name = "a" then some "$b" else none) "$\x7ba\x7d.$a$" = .ok "$b.$b$" := by
  decide +kernel

end JsonSql.Settings
