import JsonSql.Json.Basic

set_option autoImplicit false

/-!
# Shapes of JSON values

Which parts of a value somebody looks at.  A reader that knows the shape passes over the other
parts: they have to be well formed, but nothing else is asked of them.
-/

namespace JsonSql

/-- The parts of a value that are looked at. -/
inductive Shape where
  /-- all of it -/
  | whole
  /-- the items of an array, by one shape -/
  | list (item : Shape)
  /-- the members with known names, by their shapes, or the items of an array in the same order;
  other members of an object are passed over or looked at as a whole -/
  | record (skipsOthers : Bool) (members : List (String × Shape))
  deriving Repr, Inhabited

namespace Shape

/-- A record of which other members are passed over and the members with names are looked at as a
whole. -/
def ofNames (names : List String) : Shape := record true (names.map fun name => (name, whole))

/-- The shape of the item of an array at an index. -/
def item : Shape → Nat → Shape
  | whole, _ => whole
  | list s, _ => s
  | record _ members, index => (members[index]?.map Prod.snd).getD whole

/-- The shape of the member of an object with a name; none, if it is passed over. -/
def member? : Shape → String → Option Shape
  | record skipsOthers members, name =>
    match JsonSql.member? name members with
    | some s => some s
    | none => if skipsOthers then none else some whole
  | _, _ => some whole

@[simp] theorem item_whole (index : Nat) : whole.item index = whole := rfl

@[simp] theorem member?_whole (name : String) : whole.member? name = some whole := rfl

end Shape

end JsonSql
