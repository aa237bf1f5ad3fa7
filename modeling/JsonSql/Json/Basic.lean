import JsonSql.Decimal.Layout

set_option autoImplicit false

/-!
# JSON values

Values with the members of an object in their written order.  A number is an integer of 64 bits
or a finite binary64 number.  A tree fresh from the reader may repeat a key; `merged` keeps the
first place and the last value of each.
-/

namespace JsonSql

open JsonSql.Decimal

/-- A JSON number. -/
inductive Number where
  /-- an integer between `-2 ^ 63` and `2 ^ 64 - 1` -/
  | int (n : Int)
  /-- any other number -/
  | float (x : Finite64)
  deriving DecidableEq, Repr, Inhabited

/-- A JSON value. -/
inductive Json where
  | null
  | bool (b : Bool)
  | number (n : Number)
  | string (s : String)
  | array (items : List Json)
  | object (members : List (String × Json))
  deriving Repr, Inhabited

/-- The number as a binary64 number. -/
def Number.toBinary64 : Number → Binary64
  | .int n => .ofInt n
  | .float x => .finite x

/-! ## Members -/

/-- The value of the first member with a key. -/
def member? {α : Type} (key : String) : List (String × α) → Option α
  | [] => none
  | (k, v) :: rest => if k = key then some v else member? key rest

/-- A member put into an object: in the place of the member with its key if there is one, else at
the end. -/
def putMember {α : Type} (key : String) (value : α) : List (String × α) → List (String × α)
  | [] => [(key, value)]
  | (k, v) :: rest => if k = key then (k, value) :: rest else (k, v) :: putMember key value rest

/-- Members one after another, each key at its first place with its last value. -/
def mergeMembers {α : Type} (members : List (String × α)) : List (String × α) :=
  members.foldl (fun kept (key, value) => putMember key value kept) []

/-- Whether some key occurs twice. -/
def repeatsKey {α : Type} : List (String × α) → Bool
  | [] => false
  | (key, _) :: rest => rest.any (fun (k, _) => k = key) || repeatsKey rest

theorem member?_mem {α : Type} {key : String} {value : α} {members : List (String × α)}
    (h : member? key members = some value) : (key, value) ∈ members := by
  induction members with
  | nil => cases h
  | cons m rest ih =>
    obtain ⟨k, v⟩ := m
    rw [member?] at h
    split at h
    · next hkey =>
      cases h
      rw [hkey]
      exact List.mem_cons_self
    · exact List.mem_cons_of_mem _ (ih h)

@[simp] theorem member?_putMember_self {α : Type} (key : String) (value : α)
    (members : List (String × α)) : member? key (putMember key value members) = some value := by
  induction members with
  | nil => simp [putMember, member?]
  | cons m rest ih =>
    obtain ⟨k, v⟩ := m
    by_cases h : k = key <;> simp [putMember, member?, h, ih]

theorem member?_putMember_of_ne {α : Type} {key other : String} (h : other ≠ key) (value : α)
    (members : List (String × α)) :
    member? other (putMember key value members) = member? other members := by
  induction members with
  | nil => simp [putMember, member?, Ne.symm h]
  | cons m rest ih =>
    obtain ⟨k, v⟩ := m
    by_cases hk : k = key
    · subst hk; simp [putMember, member?, Ne.symm h]
    · simp [putMember, member?, hk, ih]

namespace Json

/-- The value that stands for none. -/
def isNull : Json → Bool
  | null => true
  | _ => false

mutual
/-- The value with repeated keys merged at every level. -/
def merged : Json → Json
  | array items => array (mergedItems items)
  | object members => object (mergeMembers (mergedMembers members))
  | other => other

/-- Every item merged. -/
def mergedItems : List Json → List Json
  | [] => []
  | item :: rest => item.merged :: mergedItems rest

/-- The value of every member merged. -/
def mergedMembers : List (String × Json) → List (String × Json)
  | [] => []
  | (key, value) :: rest => (key, value.merged) :: mergedMembers rest
end

mutual
/-- The number of containers around the most deeply nested value, the value itself included. -/
def depth : Json → Nat
  | array items => depthOfItems items + 1
  | object members => depthOfMembers members + 1
  | _ => 0

/-- The greatest depth of a list of values. -/
def depthOfItems : List Json → Nat
  | [] => 0
  | item :: rest => max item.depth (depthOfItems rest)

/-- The greatest depth of the values of members. -/
def depthOfMembers : List (String × Json) → Nat
  | [] => 0
  | (_, value) :: rest => max value.depth (depthOfMembers rest)
end

end Json

end JsonSql
