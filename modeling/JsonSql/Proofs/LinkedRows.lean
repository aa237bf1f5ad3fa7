import JsonSql.Proofs.Followed
import JsonSql.Proofs.JoinedRows

set_option autoImplicit false

/-!
# Rows that a link joins

Whether a link joins one row to another is said by their values alone (`Link.joins`).  The condition
of a left join and that of a count of rows spell this out with the names of their tables, so both
find the same rows whatever the names are.
-/

namespace JsonSql

open JsonSql.Sql

variable {E : Engine} {s : Schema} {db : Database E} {options : Options} {names : Nat → String}
  {tables : Tables E} {k k' : Nat}

/-- The rows that a left join finds beside a row. -/
def Sql.Join.found (db : Database E) (tables : Tables E) (join : Join) : List (Row E) :=
  (db join.target.table).filter fun row =>
    meets db ((join.target.referenceName, row) :: tables) (some join.condition)

/-- A left join puts the rows that it finds beside a row, or else a row of nulls. -/
theorem Sql.Join.tables_eq_found (tables : Tables E) (join : Join) :
    join.tables db tables = (orOne (nullRow E) (join.found db tables)).map fun row =>
      (join.target.referenceName, row) :: tables := by
  obtain ⟨target, condition⟩ := join
  exact join_tables_eq db tables target condition

/-- A row refers by a polymorphic key to a key of a collection. -/
def Relation.pointsTo (r : Relation) (row : Row E) (target : String) (key : E.Value) : Truth :=
  match r.info.discriminator with
  | none => .no
  | some column =>
    (E.same (row column) (E.text target)).and (E.same (row r.field) (key.bind (E.cast .text)))

/-- A link from a row of a collection joins another row to it. -/
def Link.joins (s : Schema) (owner : String) (row other : Row E) : Link → Truth
  | .none => .no
  | .manyToOne r =>
    (r.related.map fun target => E.same (row r.field) (other (s.primaryOf target))).getD .no
  | .manyToAny r scope =>
    (scope.map fun target => r.pointsTo row target (other (s.primaryOf target))).getD .no
  | .oneToMany r => E.same (row (s.primaryOf owner)) (other r.field)
  | .oneToAny r => r.pointsTo other owner (row (s.primaryOf owner))

/-- The rows that a link finds for a row of a collection. -/
def Link.found (s : Schema) (db : Database E) (owner : String) (row : Row E) (target : String)
    (link : Link) : List (Row E) :=
  (db target).filter fun other => link.joins s owner row other = .yes

/-- The rows that a left join along a link puts beside a row of a collection. -/
def Link.beside (s : Schema) (db : Database E) (owner : String) (row : Row E) (target : String)
    (link : Link) : List (Row E) :=
  orOne (nullRow E) (link.found s db owner row target)

theorem truthOn_refersTo {r : Relation} {table column target : String} {key : Expr}
    (hcolumn : r.info.discriminator = some column) :
    (refersTo table column r.field target key).truthOn db tables =
      r.pointsTo (rowOf tables table) target (key.value db [] tables) := by
  rw [refersTo, truthOn_both, truthOn_equals, truthOn_equals, value_of, value_of, value_string,
    value_cast, Relation.pointsTo, hcolumn]

/-- The condition of a join says that the link joins the row, under a name that is new. -/
theorem truthOn_joinTarget {place : Place} {segment name target : String} {link : Link}
    {condition : Expr} (hfresh : place.table ≠ name)
    (h : ((s.context options names).joinTarget place segment name link).Gives k
      (target, condition) k') (other : Row E) :
    condition.truthOn db ((name, other) :: tables) =
      link.joins s place.collection (rowOf tables place.table) other := by
  have hplace : rowOf ((name, other) :: tables) place.table = rowOf tables place.table :=
    rowOf_cons_of_ne hfresh other tables
  have hother : rowOf ((name, other) :: tables) name = other := rowOf_cons_self name other tables
  cases link with
  | none => exact absurd h Compile.not_gives_throw
  | manyToOne r =>
    unfold Context.joinTarget at h
    dsimp only at h
    split at h
    · exact absurd h Compile.not_gives_throw
    · next found hrelated =>
      simp only [Compile.gives_bind, Compile.gives_pure] at h
      obtain ⟨primary, k₁, hprimary, hresult, -⟩ := h
      obtain ⟨-, -, -, rfl, -⟩ := primary_context_gives hprimary
      cases hresult
      rw [truthOn_equals, value_of, value_of, hplace, hother, Link.joins, hrelated,
        Option.map_some, Option.getD_some]
  | manyToAny r scope =>
    unfold Context.joinTarget at h
    dsimp only at h
    split at h
    · exact absurd h Compile.not_gives_throw
    · next found =>
      split at h
      · simp only [Compile.gives_bind, Compile.gives_pure] at h
        obtain ⟨column, k₁, hcolumn, primary, k₂, hprimary, hresult, -⟩ := h
        obtain ⟨hdiscriminator, -⟩ := discriminator_gives.mp hcolumn
        obtain ⟨-, -, -, rfl, -⟩ := primary_context_gives hprimary
        cases hresult
        rw [truthOn_refersTo hdiscriminator, value_of, hplace, hother, Link.joins,
          Option.map_some, Option.getD_some]
      · exact absurd h Compile.not_gives_throw
  | oneToMany r =>
    rw [Context.joinTarget] at h
    simp only [Compile.gives_bind, Compile.gives_pure] at h
    obtain ⟨primary, k₁, hprimary, hresult, -⟩ := h
    obtain ⟨-, -, -, rfl, -⟩ := primary_context_gives hprimary
    cases hresult
    rw [truthOn_equals, value_of, value_of, hplace, hother, Link.joins]
  | oneToAny r =>
    rw [Context.joinTarget] at h
    simp only [Compile.gives_bind, Compile.gives_pure] at h
    obtain ⟨column, k₁, hcolumn, primary, k₂, hprimary, hresult, -⟩ := h
    obtain ⟨hdiscriminator, -⟩ := discriminator_gives.mp hcolumn
    obtain ⟨-, -, -, rfl, -⟩ := primary_context_gives hprimary
    cases hresult
    rw [truthOn_refersTo hdiscriminator, value_of, hplace, hother, Link.joins]

/-- A left join along a link, under a name that is new, finds the rows of the link. -/
theorem found_joinTarget {place : Place} {segment name target : String} {link : Link}
    {condition : Expr} (hfresh : place.table ≠ name)
    (h : ((s.context options names).joinTarget place segment name link).Gives k
      (target, condition) k') :
    Join.found db tables ⟨⟨target, some name⟩, condition⟩ =
      link.found s db place.collection (rowOf tables place.table) target := by
  refine List.filter_congr fun other _ => ?_
  rw [Bool.eq_iff_iff, meets_eq_true, decide_eq_true_eq]
  exact (congrArg (· = Truth.yes) (truthOn_joinTarget hfresh h other)).to_iff

/-- Such a join puts the rows of the link beside a row, or else a row of nulls. -/
theorem tables_joinTarget {place : Place} {segment name target : String} {link : Link}
    {condition : Expr} (hfresh : place.table ≠ name)
    (h : ((s.context options names).joinTarget place segment name link).Gives k
      (target, condition) k') :
    (Join.mk ⟨target, some name⟩ condition).tables db tables =
      (link.beside s db place.collection (rowOf tables place.table) target).map fun other =>
        (name, other) :: tables := by
  rw [Join.tables_eq_found, found_joinTarget hfresh h, Link.beside]
  rfl

/-- A count of the rows of a link, under a name that is new, counts those that the link finds. -/
theorem value_countRows?_found {owner table : String} {link : Link} {e : Expr}
    (hfresh : table ≠ names k)
    (h : ((s.context options names).countRows? owner table link).Gives k (some e) k') :
    ∃ r, link.relation? = some r ∧ e.value db [] tables =
      some (E.ofCount (link.found s db owner (rowOf tables table) r.collection).length) := by
  obtain ⟨r, primary, condition, hprimary, -, rfl, -, hcases⟩ := Context.countRows?_gives h
  obtain ⟨-, -, -, rfl, -⟩ := primary_context_gives hprimary
  have htable (other : Row E) : rowOf ((names k, other) :: tables) table = rowOf tables table :=
    rowOf_cons_of_ne hfresh other tables
  have hjoins : link.relation? = some r ∧ ∀ other : Row E,
      condition.truthOn db ((names k, other) :: tables) =
        link.joins s owner (rowOf tables table) other := by
    rcases hcases with ⟨rfl, rfl⟩ | ⟨column, rfl, hcolumn, rfl⟩
    · refine ⟨rfl, fun other => ?_⟩
      rw [Schema.context_names, truthOn_equals, value_of, value_of, rowOf_cons_self, htable,
        E.same_symm, Link.joins]
    · refine ⟨rfl, fun other => ?_⟩
      rw [Schema.context_names, truthOn_refersTo hcolumn, value_of, rowOf_cons_self, htable,
        Link.joins]
  refine ⟨r, hjoins.1, ?_⟩
  have hmeets (other : Row E) : meets db ((names k, other) :: tables) (some condition) =
      decide (link.joins s owner (rowOf tables table) other = .yes) := by
    rw [Bool.eq_iff_iff, meets_eq_true, decide_eq_true_eq, hjoins.2]
  rw [Schema.context_names, value_countRows, Link.found]
  simp only [hmeets]

end JsonSql
