import JsonSql.Proofs.Carried
import JsonSql.Proofs.Issued

set_option autoImplicit false

/-!
# Attempts to join along a path

A step that fails gives no result, but the joins that it made before stay in the statement, and the
aliases that it took stay issued.  An attempt keeps both (`Context.attemptFrom`); its outcome is that
of joining (`result_attemptFrom`).  An attempt, however it comes out, only adds joins and records
them for paths without one, and so do any attempts one after another (`grows_attempts`).  A path that
was joined once is settled: whatever is attempted in between, joining it again finds all its joins,
adds nothing and takes no alias (`joinFrom_settled`).
-/

namespace JsonSql

open JsonSql.Sql

/-! ## Attempts -/

/-- What joining along a path leaves behind. -/
structure Attempt where
  scope : Scope
  /-- the number of aliases issued -/
  issued : Nat
  /-- whether a link to several rows was joined, or why joining failed -/
  outcome : Except QueryError Bool

/-- What a step of a compilation gives of an attempt. -/
def Attempt.result (a : Attempt) : Except QueryError ((Scope × Bool) × Nat) :=
  a.outcome.map fun several => ((a.scope, several), a.issued)

namespace Context

variable {c : Context} {inner : Bool} {collection : String}

/-- Joins along the segments of a path but the last, and keeps what was joined before a failure.  The
alias of a join is taken before its target is looked up. -/
def attemptFrom (c : Context) (inner : Bool) (place : Place) (before : List String) (scope : Scope)
    (k : Nat) : List String → Attempt
  | segment :: next :: rest =>
    let link := c.link place.collection segment
    let path := before ++ [segment]
    if link = .none then ⟨scope, k, .ok false⟩
    else match scope.hops.get? path with
      | some hop =>
        if leadsOn inner place link then
          c.attemptFrom inner hop.place path scope k (next :: rest)
        else ⟨scope, k, .ok false⟩
      | none =>
        if isJoined inner place link then
          match c.join scope path place segment link k with
          | .error e => ⟨scope, k + 1, .error e⟩
          | .ok ((scope, hop), k) =>
            if leadsOn inner place link then
              let onward := c.attemptFrom inner hop.place path scope k (next :: rest)
              { onward with outcome := onward.outcome.map (link.isToMany || ·) }
            else ⟨scope, k, .ok link.isToMany⟩
        else ⟨scope, k, .ok false⟩
  | _ => ⟨scope, k, .ok false⟩

/-- Joins along a path from a collection, and keeps what was joined before a failure. -/
def attempt (c : Context) (inner : Bool) (collection : String) (scope : Scope) (k : Nat)
    (path : List String) : Attempt :=
  c.attemptFrom inner (.root collection) [] scope k path

/-- An attempt comes out as joining does. -/
theorem result_attemptFrom {segments : List String} :
    ∀ {place : Place} {before : List String} {scope : Scope} {k : Nat},
      (c.attemptFrom inner place before scope k segments).result =
        c.joinFrom inner place before scope segments k := by
  induction segments with
  | nil => exact rfl
  | cons segment segments ih =>
    intro place before scope k
    cases segments with
    | nil => exact rfl
    | cons next rest =>
      rw [joinFrom_cons, attemptFrom]
      dsimp only
      split
      · rfl
      · cases hfound : scope.hops.get? (before ++ [segment]) with
        | some hop =>
          dsimp only
          split
          · exact ih
          · rfl
        | none =>
          dsimp only
          split
          · cases hjoin : c.join scope (before ++ [segment]) place segment
                (c.link place.collection segment) k with
            | error e => simp only [bind, StateT.bind, hjoin]; rfl
            | ok joined =>
              obtain ⟨⟨scope₁, hop⟩, k₁⟩ := joined
              simp only [bind, StateT.bind, hjoin, Except.bind]
              split
              · dsimp only [StateT.bind]
                rw [← ih]
                cases houtcome : (c.attemptFrom inner hop.place (before ++ [segment]) scope₁ k₁
                  (next :: rest)).outcome <;> simp only [Attempt.result, houtcome] <;> rfl
              · rfl
          · rfl

theorem result_attempt {scope : Scope} {k : Nat} {path : List String} :
    (c.attempt inner collection scope k path).result =
      c.joinPath inner collection scope path k :=
  result_attemptFrom

theorem scope_attemptFrom {place : Place} {before segments : List String} {scope scope' : Scope}
    {several : Bool} {k k' : Nat}
    (h : (c.joinFrom inner place before scope segments).Gives k (scope', several) k') :
    (c.attemptFrom inner place before scope k segments).scope = scope' ∧
      (c.attemptFrom inner place before scope k segments).issued = k' := by
  rw [Compile.Gives, ← result_attemptFrom, Attempt.result] at h
  cases houtcome : (c.attemptFrom inner place before scope k segments).outcome with
  | error e =>
    rw [houtcome] at h
    cases h
  | ok found =>
    rw [houtcome] at h
    obtain ⟨hscope, hissued⟩ := Prod.mk.inj (Except.ok.inj h)
    exact ⟨(Prod.mk.inj hscope).1, hissued⟩

end Context

/-! ## What attempts keep -/

/-- A statement and its record, to which nothing was done but that joins were added. -/
structure Scope.Grows (scope later : Scope) : Prop where
  joins : scope.query.joins <+: later.query.joins
  rest : Context.sameButJoins scope.query later.query
  record : Context.Keeps scope.hops later.hops

namespace Scope.Grows

variable {scope scope₁ scope₂ : Scope}

theorem refl (scope : Scope) : scope.Grows scope :=
  ⟨List.prefix_rfl, Context.sameButJoins_refl _, fun _ _ hfound => hfound⟩

theorem trans (h : scope.Grows scope₁) (h' : scope₁.Grows scope₂) : scope.Grows scope₂ := by
  refine ⟨h.joins.trans h'.joins, ?_, fun path hop hfound => h'.record _ _ (h.record _ _ hfound)⟩
  have hrest := h'.rest
  rw [Context.sameButJoins, h.rest] at hrest
  exact hrest

/-- A join is recorded for a path that had none. -/
theorem join {c : Context} {path : List String} {place : Place} {segment : String} {link : Link}
    {hop : Hop} {k k' : Nat} (hnew : scope.hops.get? path = none)
    (h : (c.join scope path place segment link).Gives k (scope₁, hop) k') : scope.Grows scope₁ := by
  obtain ⟨target, condition, -, -, rfl⟩ := Context.join_gives h
  refine ⟨List.prefix_append _ _, rfl, fun other found hfound => ?_⟩
  rw [Hops.get?_insert_of_ne _ ?_, hfound]
  intro hkey
  rw [Hops.get?, hkey, ← Hops.get?, hnew] at hfound
  cases hfound

end Scope.Grows

namespace Context

variable {c : Context} {inner : Bool} {collection : String}

/-- An attempt only adds joins, also where it fails. -/
theorem grows_attemptFrom {segments : List String} :
    ∀ {place : Place} {before : List String} {scope : Scope} {k : Nat},
      scope.Grows (c.attemptFrom inner place before scope k segments).scope ∧
        k ≤ (c.attemptFrom inner place before scope k segments).issued := by
  induction segments with
  | nil => exact fun {_ _ scope k} => ⟨.refl scope, Nat.le_refl k⟩
  | cons segment segments ih =>
    intro place before scope k
    cases segments with
    | nil => exact ⟨.refl scope, Nat.le_refl k⟩
    | cons next rest =>
      rw [attemptFrom]
      dsimp only
      split
      · exact ⟨.refl scope, Nat.le_refl k⟩
      · split
        · split
          · exact ih
          · exact ⟨.refl scope, Nat.le_refl k⟩
        · next hnew =>
          split
          · split
            · exact ⟨.refl scope, Nat.le_succ k⟩
            · next scope₁ hop k₁ hjoin =>
              have hjoined : scope.Grows scope₁ := .join hnew hjoin
              have hissued : k ≤ k₁ := by
                obtain ⟨target, condition, htarget, -, -⟩ := join_gives hjoin
                exact Nat.le_of_succ_le (grows_joinTarget _ _ _ _ htarget)
              split
              · exact ⟨hjoined.trans ih.1, Nat.le_trans hissued ih.2⟩
              · exact ⟨hjoined, hissued⟩
          · exact ⟨.refl scope, Nat.le_refl k⟩

/-- What is left behind by attempts, one after another, along paths from a collection.  Each is made
in an inner statement or not. -/
def attempts (c : Context) (collection : String) (scope : Scope) (k : Nat)
    (calls : List (Bool × List String)) : Scope × Nat :=
  calls.foldl (fun (scope, k) (inner, path) =>
    let left := c.attempt inner collection scope k path
    (left.scope, left.issued)) (scope, k)

/-- Whatever is attempted, joins are only added. -/
theorem grows_attempts (calls : List (Bool × List String)) (scope : Scope) (k : Nat) :
    scope.Grows (c.attempts collection scope k calls).1 ∧
      k ≤ (c.attempts collection scope k calls).2 := by
  induction calls generalizing scope k with
  | nil => exact ⟨.refl scope, Nat.le_refl k⟩
  | cons call rest ih =>
    obtain ⟨inner, path⟩ := call
    obtain ⟨hfirst, hissued⟩ : scope.Grows (c.attempt inner collection scope k path).scope ∧
        k ≤ (c.attempt inner collection scope k path).issued := grows_attemptFrom
    obtain ⟨hrest, hmore⟩ := ih (c.attempt inner collection scope k path).scope
      (c.attempt inner collection scope k path).issued
    exact ⟨hfirst.trans hrest, Nat.le_trans hissued hmore⟩

/-! ## Settled paths -/

/-- A link that is not joined does not lead on either. -/
theorem leadsOn_of_not_isJoined {place : Place} {link : Link} (hlink : link ≠ .none)
    (h : ¬isJoined inner place link = true) : ¬leadsOn inner place link = true := by
  cases link with
  | none => exact absurd rfl hlink
  | oneToMany r => exact h
  | manyToOne r | manyToAny r scope | oneToAny r => exact absurd rfl h

/-- Joins along a path that was joined before are all there. -/
theorem joinFrom_settled {segments : List String} :
    ∀ {place : Place} {before : List String} {scope scope' later : Scope} {several : Bool}
      {k k' : Nat}, (c.joinFrom inner place before scope segments).Gives k (scope', several) k' →
      Keeps scope'.hops later.hops → ∀ j,
      (c.joinFrom inner place before later segments).Gives j (later, false) j := by
  induction segments with
  | nil => exact fun _ _ j => Compile.gives_pure.mpr ⟨rfl, rfl⟩
  | cons segment segments ih =>
    intro place before scope scope' later several k k' h hkeeps j
    cases segments with
    | nil => exact Compile.gives_pure.mpr ⟨rfl, rfl⟩
    | cons next rest =>
      have hgrows : Keeps scope.hops scope'.hops := by
        rw [← (scope_attemptFrom h).1]
        exact grows_attemptFrom.1.record
      rw [joinFrom_cons] at h ⊢
      split at h
      · next hlink =>
        rw [if_pos hlink]
        exact Compile.gives_pure.mpr ⟨rfl, rfl⟩
      · next hlink =>
        rw [if_neg hlink]
        split at h
        · next hop hfound =>
          rw [hkeeps _ _ (hgrows _ _ hfound)]
          dsimp only
          split at h
          · next hleads =>
            rw [if_pos hleads]
            exact ih h hkeeps j
          · next hstays =>
            rw [if_neg hstays]
            exact Compile.gives_pure.mpr ⟨rfl, rfl⟩
        · next hnew =>
          split at h
          · next hjoined =>
            simp only [Compile.gives_bind] at h
            obtain ⟨⟨scope₁, hop⟩, k₁, hjoin, h⟩ := h
            have hrecorded : scope₁.hops.get? (before ++ [segment]) = some hop := by
              obtain ⟨target, condition, -, rfl, rfl⟩ := join_gives hjoin
              exact Hops.get?_insert_self _ _ _
            split at h
            · next hleads =>
              simp only [Compile.gives_bind, Compile.gives_pure] at h
              obtain ⟨⟨scope₂, several₂⟩, k₂, h, hresult, rfl⟩ := h
              cases hresult
              have hlater : Keeps scope₁.hops scope₂.hops := by
                rw [← (scope_attemptFrom h).1]
                exact grows_attemptFrom.1.record
              rw [hkeeps _ _ (hlater _ _ hrecorded)]
              dsimp only
              rw [if_pos hleads]
              exact ih h hkeeps j
            · next hstays =>
              obtain ⟨h, rfl⟩ := Compile.gives_pure.mp h
              cases h
              rw [hkeeps _ _ hrecorded]
              dsimp only
              rw [if_neg hstays]
              exact Compile.gives_pure.mpr ⟨rfl, rfl⟩
          · next hskipped =>
            -- a later join of the segment, in an inner statement, is not followed here
            split
            · rw [if_neg (leadsOn_of_not_isJoined hlink hskipped)]
              exact Compile.gives_pure.mpr ⟨rfl, rfl⟩
            · rw [if_neg hskipped]
              exact Compile.gives_pure.mpr ⟨rfl, rfl⟩

end Context

end JsonSql
