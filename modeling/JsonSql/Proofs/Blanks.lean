import JsonSql.Proofs.Replacements

set_option autoImplicit false

/-!
# Blanks around the segments of keys

A path is joined and looked up without the blanks around its segments, so a key of a filter means
the same with other blanks there: the same statement and the same flag, or an error of the same
kind.  There is one place where blanks count.  Whether a segment lists rows is asked at the root of
a filter before the path is taken apart, and if the segment is the last one of its key it is asked
for as it is written.  `apply_of_respaced` is therefore about keys of which the last segment, with
the old blanks and with the new ones, starts the same existential condition there, or none.
-/

namespace JsonSql

open JsonSql.Sql
open Compile (SameUpTo)

/-! ## Kinds of errors -/

/-- What an error is about, apart from what it names. -/
inductive QueryError.Kind where
  | missingScope
  | operatorNotAllowed
  | concealed
  | unknownOperator
  | filter
  | query
  | unknownCollection
  | unknownField
  | function
  | unsupported
  | schema
  deriving DecidableEq, Repr

/-- The kind of an error. -/
def QueryError.kind : QueryError → Kind
  | missingScope _ _ => .missingScope
  | operatorNotAllowed _ _ _ => .operatorNotAllowed
  | concealed _ _ => .concealed
  | unknownOperator _ => .unknownOperator
  | filter _ => .filter
  | query _ => .query
  | unknownCollection _ => .unknownCollection
  | unknownField _ _ => .unknownField
  | function _ _ _ => .function
  | unsupported _ _ => .unsupported
  | schema _ => .schema

/-! ## Keys with other blanks -/

theorem fieldPath_eq_concat (key : String) :
    fieldPath key = (parentSegments key).map Text.trim ++ [Text.trim (lastSegment key)] := by
  rw [fieldPath, split_eq_concat, List.map_append, List.map_cons, List.map_nil]

/-- Keys of one path have the same segments but for blanks around them. -/
theorem trims_of_fieldPath_eq {key key' : String} (h : fieldPath key = fieldPath key') :
    (parentSegments key).map Text.trim = (parentSegments key').map Text.trim ∧
      Text.trim (lastSegment key) = Text.trim (lastSegment key') := by
  rw [fieldPath_eq_concat, fieldPath_eq_concat] at h
  obtain ⟨hparents, hlast⟩ := List.append_inj' h
    (by rw [List.length_singleton, List.length_singleton])
  exact ⟨hparents, List.singleton_inj.mp hlast⟩

variable {c : Context} {site : Site}

namespace Context

/-- The link to the rows that an existential condition is on, if a segment as it is written starts
one. -/
def rowsLink? (c : Context) (site : Site) (segment : String) : Option Link :=
  if c.startsExistential site.collection site.parents segment then
    some (c.link site.collection segment)
  else none

/-- Segments with one such link start existential conditions both or not at all, on the same
rows. -/
theorem startsExistential_of_rowsLink?_eq {segment segment' : String}
    (h : c.rowsLink? site segment = c.rowsLink? site segment') :
    c.startsExistential site.collection site.parents segment =
        c.startsExistential site.collection site.parents segment' ∧
      (c.startsExistential site.collection site.parents segment = true →
        c.link site.collection segment = c.link site.collection segment') := by
  unfold rowsLink? at h
  split at h <;> split at h <;> simp_all

end Context

/-- A field is asked for under a key of the same path. -/
inductive Clause.Respaces (c : Context) : Site → Clause → Clause → Prop
  | field {site : Site} {key key' : String} (condition : FieldCondition) :
      fieldPath key = fieldPath key' →
      c.rowsLink? (c.siteOf site key) (lastSegment key) =
        c.rowsLink? (c.siteOf site key) (lastSegment key') →
      Clause.Respaces c site (.field key condition) (.field key' condition)

/-- The blanks around a segment matter to nothing but the existential condition that it starts, and
to what an error calls the segment. -/
theorem Clause.Alike.respaced {segment segment' : String}
    (htrim : Text.trim segment = Text.trim segment')
    (hrows : c.rowsLink? site segment = c.rowsLink? site segment') (condition : FieldCondition) :
    Clause.Alike c QueryError.kind site (.field segment condition) (.field segment' condition) := by
  obtain ⟨hstart, hlink⟩ := Context.startsExistential_of_rowsLink?_eq hrows
  refine ⟨?_, fun hops _ => ?_⟩
  · rw [Context.clausePaths, Context.clausePaths, hstart, htrim]
  rw [Context.clauseCondition?, Context.clauseCondition?]
  cases condition with
  | compare comparisons =>
    rw [Context.fieldCondition?, Context.fieldCondition?, ← hstart, htrim]
    split
    -- The message shows the key as it is written, so only the kinds of the errors are the same.
    · exact (SameUpTo.throw rfl).bind fun _ _ _ _ => .refl _
    · exact .refl _
  | nested f =>
    rw [Context.fieldCondition?, Context.fieldCondition?, ← hstart, htrim]
    split
    next h => exact hlink h ▸ .refl _
    next => exact .refl _
  | quantified quantifier f =>
    rw [Context.fieldCondition?, Context.fieldCondition?, ← hstart, htrim]
    split
    next h => exact hlink h ▸ .refl _
    next => exact .refl _

/-- Other blanks around the segments of a key do not matter to the clause of the key. -/
theorem Clause.Respaces.alike {x y : Clause} (h : x.Respaces c site y) :
    Clause.Alike c QueryError.kind site x.unfolded y.unfolded := by
  cases h with
  | @field key key' condition hpath hrows =>
    obtain ⟨hparents, hlast⟩ := trims_of_fieldPath_eq hpath
    rw [Clause.unfolded, Clause.unfolded, split_eq_concat, split_eq_concat]
    exact .along (isPath_parentSegments key) hparents (isSegment_lastSegment key)
      (condition_isUnfolded_unfolded condition) (.respaced hlast hrows condition.unfolded)

/-! ## Requests -/

/-- Other blanks around the segments of a key change neither the statement and the flag that come
out of a request nor the kind of the error, wherever in the filter of the request the key stands. -/
theorem apply_of_respaced {s : Schema} {options : Options} {names : Nat → String}
    {collection : String} {f g : Filter}
    (h : f.Replaces (s.context options names) (Clause.Respaces (s.context options names))
      { collection } g)
    (q : Query) (r : Request) (inner : Bool) :
    (Compiler.apply { provider := s.provider, options, names } collection q
        { r with filter := some f } inner).mapError QueryError.kind =
      (Compiler.apply { provider := s.provider, options, names } collection q
        { r with filter := some g } inner).mapError QueryError.kind :=
  Compiler.apply_of_alike (h.alike (fun _ h => h.alike) isPath_nil) q r inner

/-- A field of what a key leads to is a text. -/
def Filter.blogUnder (key field text : String) : Filter :=
  .of (.field key
    (.nested (.of (.field field (.compare [⟨.equal false false, some (.string text)⟩])))))

/-- Articles without a title, and those with a comment by Ann. -/
def Filter.blogAnn (key : String) : Filter :=
  ⟨[.any [.of (.field "title" (.compare [⟨.null false, none⟩])), .blogUnder key "name" "Ann"]]⟩

/-- The key that leads to the author of a comment has blanks in it, in one of two alternatives. -/
theorem apply_of_respaced_blog :
    (Filter.blogAnn "comments.author").Replaces (Schema.blog.context {} Alias.sequential)
        (Clause.Respaces (Schema.blog.context {} Alias.sequential)) { collection := "articles" }
        (.blogAnn "\tcomments . author ") ∧
      ∃ applied,
        (Compiler.blog .postgres).apply "articles" (Compiler.target "articles" {})
          { filter := some (.blogAnn "comments.author") } false = .ok applied ∧
        (Compiler.blog .postgres).apply "articles" (Compiler.target "articles" {})
          { filter := some (.blogAnn "\tcomments . author ") } false = .ok applied := by
  have hplace : (Filter.blogAnn "comments.author").Replaces
      (Schema.blog.context {} Alias.sequential)
      (Clause.Respaces (Schema.blog.context {} Alias.sequential)) { collection := "articles" }
      (.blogAnn "\tcomments . author ") :=
    .clause [] [] (.any [_] [] (.clause [] [] (.here
      (.field _ (by decide +kernel) (by decide +kernel)))))
  have hok : ((Compiler.blog .postgres).apply "articles" (Compiler.target "articles" {})
      { filter := some (.blogAnn "comments.author") } false).isOk = true := by decide +kernel
  refine ⟨hplace, ?_⟩
  exact Except.exists_ok_of_mapError_eq
    (apply_of_respaced hplace (Compiler.target "articles" {}) {} false) hok

/-- A link to several rows is not found under a key with blanks around it, though the path of the
key leads along the link. -/
theorem refused_respaced_blog :
    fieldPath "comments" = fieldPath " comments " ∧
      ((Compiler.blog .postgres).apply "articles" (Compiler.target "articles" {})
        { filter := some (.blogUnder "comments" "body" "x") } false).isOk = true ∧
      ((Compiler.blog .postgres).apply "articles" (Compiler.target "articles" {})
        { filter := some (.blogUnder " comments " "body" "x") } false).isOk = false :=
  ⟨by decide +kernel, by decide +kernel, by decide +kernel⟩

end JsonSql
