import JsonSql.Proofs.Aliases
import JsonSql.Proofs.JoinedRows
import JsonSql.Proofs.ParallelRequests
import Mathlib.Logic.Function.Basic

set_option autoImplicit false

/-!
# The spelling of aliases

However aliases are spelled, a request compiles to the same statement: with other aliases that are
told apart and are no names of collections, it fails for the same reason, or gives the same
statement with each alias in the place of the one issued at the same point (`compile_respelled`).
-/

namespace JsonSql

open JsonSql.Sql

/-- Labels that take each alias of a stream to the one that another stream issues at the same point,
and leave every other name as it is. -/
noncomputable def Alias.respelling (names names' : Nat → String) : String → String :=
  Function.extend names names' id

theorem respells_respelling {s : Schema} {names : Nat → String}
    (hinjective : Function.Injective names) (havoids : ∀ k, s.AvoidsAliases names k)
    (names' : Nat → String) : s.Respells (Alias.respelling names names') names names' := by
  refine ⟨fun k => (hinjective.extend_apply names' id k).symm, fun collection info hinfo => ?_⟩
  refine Function.extend_apply' names' id collection ?_
  rintro ⟨k, rfl⟩
  obtain ⟨declared, hdeclared, -⟩ := Option.map_eq_some_iff.mp (Except.ok.inj hinfo)
  rw [havoids (k + 1) k (Nat.lt_succ_self k)] at hdeclared
  cases hdeclared

/-- The spelling of aliases does not influence a compilation.  If the aliases of a stream are told
apart and are no names of collections, then a request compiles with any other stream to what it
compiles to with this one, with aliases respelled; and it fails where it fails with this one, for
the same reason.  The style and the length of aliases in the options tell how streams are spelled
and nothing else. -/
theorem compile_respelled {s : Schema} {names names' : Nat → String}
    (hinjective : Function.Injective names) (havoids : ∀ k, s.AvoidsAliases names k)
    (options : Options) (style : AliasStyle) (length : Nat) (collection : String) (r : Request) :
    (Compiler.compile { provider := s.provider, options, names } collection r).map
        (Query.relabelled (Alias.respelling names names')) =
      Compiler.compile {
        provider := s.provider
        options := { options with aliasStyle := style, aliasLength := length }
        names := names' } collection r := by
  refine Except.Matches.map_eq (Except.Matches.mono (matches_compile
    (respells_respelling hinjective havoids names') rfl fun _ => .inl rfl) ?_)
  exact fun q q' (halike : Query.Alike True _ q q') => halike.whole trivial

/-- No collection of the blog is spelled like a sequential alias. -/
theorem avoidsAliases_blog (k : Nat) : Schema.blog.AvoidsAliases Alias.sequential k := by
  intro j _
  refine List.find?_eq_none.mpr fun declared hdeclared => ?_
  have hname : ∀ c ∈ Schema.blog.collections, c.info.name.toList.head? ≠ some 'j' := by
    decide +kernel
  have hne : declared.info.name ≠ Alias.sequential j := by
    intro hsame
    refine hname declared hdeclared ?_
    rw [hsame, Alias.sequential, String.toList_append]
    rfl
  simpa using hne

theorem compile_respelled_blog :
    ∃ q, (Compiler.blog .postgres).compile "articles" Request.blog = .ok q ∧
      Compiler.compile {
        provider := Schema.blog.provider
        options := { dialect := .postgres, aliasStyle := .random, aliasLength := 3 }
        names := Alias.random (fun k => Fin.ofNat 26 k) 3 } "articles" Request.blog =
      .ok (q.relabelled (Alias.respelling Alias.sequential
        (Alias.random (fun k => Fin.ofNat 26 k) 3))) := by
  obtain ⟨q, hq⟩ := exists_compile_blog .postgres
  refine ⟨q, hq, ?_⟩
  rw [← compile_respelled (Alias.names_injective .sequential 0 fun _ => 0) avoidsAliases_blog
    { dialect := .postgres } .random 3 "articles" Request.blog]
  exact congrArg (Except.map _) hq

end JsonSql
